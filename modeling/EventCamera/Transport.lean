/-! # Transports

Where the bytes of a device come from. A transport is read with room for some bytes and answers
with at most as many. A source is a transport whose answers are laid down beforehand. -/

namespace EventCamera

/-- What reading a transport came to. -/
inductive Reading where
  /-- Some bytes. A read without any tells that there will be none any more. -/
  | data (bytes : List UInt8)
  | unavailable
  | lost
  /-- The transport took its reader down. -/
  | crashed
  deriving DecidableEq, Repr

/-- A family of transports, and how they answer to a read. -/
structure Transport where
  State : Type
  read : State → (room : Nat) → Reading × State
  /-- No more bytes are read than there is room for. -/
  length_le : ∀ s room bytes, (read s room).1 = .data bytes → bytes.length ≤ room

/-- One of the answers laid down in a source. -/
inductive Piece where
  /-- Bytes, handed out over several reads if they are too many for one. Without any, the source
  has come to its end. -/
  | data (bytes : List UInt8)
  | unavailable
  /-- The read was cut short before it came to anything, and is tried again. -/
  | interrupted
  | lost
  | crash
  deriving DecidableEq, Repr

/-- Answers in their order. After the last one the source has come to its end, or stays open
without bytes if it is `idle`. -/
structure Source where
  pieces : List Piece
  idle : Bool := false
  /-- Whether it was asked for more than was laid down, or crashed. -/
  exhausted : Bool := false
  deriving Repr

namespace Source

/-- Bytes in pieces of a given size, the last one excepted. A size of zero is taken as one. -/
def chunks (size : Nat) (bytes : List UInt8) : List Piece :=
  if _ : bytes = [] then
    []
  else
    .data (bytes.take (max size 1)) :: chunks size (bytes.drop (max size 1))
termination_by bytes.length
decreasing_by
  have := List.length_pos_iff.2 ‹¬bytes = []›
  simp only [List.length_drop]
  omega

/-- The source of the bytes of a file. A read gets at most `size` of them. -/
def ofBytes (size : Nat) (bytes : List UInt8) : Source :=
  { pieces := chunks size bytes }

def read (s : Source) (room : Nat) : Reading × Source :=
  match s.pieces.dropWhile (· == .interrupted) with
  | .data bytes :: rest =>
    let later := bytes.drop room
    (.data (bytes.take room),
      { s with pieces := if later.isEmpty then rest else .data later :: rest })
  | .lost :: rest => (.lost, { s with pieces := rest })
  | .crash :: rest => (.crashed, { s with pieces := rest, exhausted := true })
  | _ :: rest => (.unavailable, { s with pieces := rest })
  | [] => (if s.idle then .unavailable else .data [], { s with pieces := [], exhausted := true })

def transport : Transport where
  State := Source
  read := read
  length_le s room bytes h := by
    unfold read at h
    split at h
    · cases h
      exact List.length_take_le ..
    · cases h
    · cases h
    · cases h
    · split at h
      · cases h
      · cases h
        exact Nat.zero_le _

/-- More reads than it takes to come to the end. -/
def reads (s : Source) : Nat :=
  let readsOf : Piece → Nat
    | .data bytes => bytes.length + 1
    | _ => 1
  (s.pieces.map readsOf).foldr (· + ·) 2

end Source

end EventCamera
