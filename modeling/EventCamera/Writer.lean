import EventCamera.Fragments

/-! # Writers

A writer collects fragments and hands them to a sink in larger portions. `Writer.text` is all that
it took over, whether the sink has got it or not. -/

namespace EventCamera

/-- Why something could not be stored or fetched. -/
inductive StorageError where
  | missing
  | notDirectory
  | isDirectory
  | noSpace
  | nameTooLong
  | sinkFull
  | other (text : String)
  deriving DecidableEq, Repr

def StorageError.message : StorageError → String
  | .missing => "No such file or directory (os error 2)"
  | .notDirectory => "Not a directory (os error 20)"
  | .isDirectory => "Is a directory (os error 21)"
  | .noSpace => "No space left on device (os error 28)"
  | .nameTooLong => "File name too long (os error 36)"
  | .sinkFull => "sink full"
  | .other text => text

/-- A place for text, which may be limited to a number of bytes. -/
structure Sink where
  text : String := ""
  limit : Option Nat := none

/-- Adds text. What does not fit is refused as a whole. -/
def Sink.write (s : Sink) (text : String) : Except StorageError Sink :=
  if s.limit.all (s.text.utf8ByteSize + text.utf8ByteSize ≤ ·) then
    .ok { s with text := s.text ++ text }
  else
    .error .sinkFull

/-- A sink, and the text that waits to be written to it. -/
structure Writer where
  sink : Sink
  pending : String := ""

namespace Writer

def capacity : Nat := 8192

def text (w : Writer) : String :=
  w.sink.text ++ w.pending

/-- Writes the text that waits. If the sink refuses it, it goes on waiting. -/
def flush (w : Writer) : Option StorageError × Writer :=
  match w.sink.write w.pending with
  | .ok sink => (none, { sink })
  | .error e => (some e, w)

/-- Takes a fragment over, to wait or, if it is too long for that, to be written at once. -/
def accept (w : Writer) (fragment : String) : Option StorageError × Writer :=
  if fragment.utf8ByteSize < capacity then
    (none, { w with pending := w.pending ++ fragment })
  else
    match w.sink.write fragment with
    | .ok sink => (none, { w with sink })
    | .error e => (some e, w)

/-- Puts a fragment. What waits is written first if the fragment does not fit behind it; if that
fails, the fragment is not taken over. -/
def put (w : Writer) (fragment : String) : Option StorageError × Writer :=
  if w.pending.utf8ByteSize + fragment.utf8ByteSize ≤ capacity then
    w.accept fragment
  else
    match w.flush with
    | (none, w) => w.accept fragment
    | failed => failed

/-- Puts fragments up to the first failure. -/
def putAll (w : Writer) : Fragments → Option StorageError × Writer
  | [] => (none, w)
  | fragment :: rest =>
    match w.put fragment with
    | (none, w) => w.putAll rest
    | failed => failed

end Writer

end EventCamera
