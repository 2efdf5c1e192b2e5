import EventCamera.Proofs.Fragmentation

/-! # The transfer buffer

A worker reads into one buffer, again and again: the bytes of an incomplete unit stay at its front, and a
read is offered what is behind them. However short the reads are and whatever becomes of the calls of the
decoder, the bytes that these are given, and then those at the front, are the bytes that were read. -/

namespace EventCamera

variable {dev : Device} {t : Transport}

/-- One read, and what it led to. -/
structure Intake where
  /-- The number of bytes that the read was offered room for. -/
  room : Nat
  reading : Reading
  /-- The bytes that the decoder was called with, if it was called. -/
  slice? : Option (List UInt8)

/-- No more bytes came than there was room for. -/
def Intake.Fits (intake : Intake) : Prop :=
  ∀ bytes, intake.reading = .data bytes → bytes.length ≤ intake.room

/-- A buffer for transfers, with the bytes of an incomplete unit at its front. -/
structure TransferBuffer where
  bytes : List UInt8
  /-- The number of bytes at the front that are kept for the next read. -/
  kept : Nat

namespace TransferBuffer

def empty (size : Nat) : TransferBuffer :=
  ⟨.replicate size 0, 0⟩

def front (b : TransferBuffer) : List UInt8 :=
  b.bytes.take b.kept

/-- The part of the buffer that a read may write to. -/
def offered (b : TransferBuffer) : List UInt8 :=
  b.bytes.drop b.kept

/-- The bytes of the buffer after a read has written to the part that it was offered. -/
def fill (b : TransferBuffer) (read : List UInt8) : List UInt8 :=
  b.bytes.take b.kept ++ read ++ b.bytes.drop (b.kept + read.length)

/-- Moves the bytes from one place up to another one to the front. Behind them, all stays as it is. -/
def moveToFront (bytes : List UInt8) (first behind : Nat) : List UInt8 :=
  (bytes.take behind).drop first ++ bytes.drop (behind - first)

/-- Takes a read in. The whole units at the front are cut out for the decoder, if there are any, and what
is left of the read is moved to the front. -/
def receive (width : Nat) (b : TransferBuffer) (read : List UInt8) :
    Option (List UInt8) × TransferBuffer :=
  let filled := b.kept + read.length
  let aligned := filled - filled % width
  let bytes := b.fill read
  (if 0 < aligned then some (bytes.take aligned) else none,
    { bytes := moveToFront bytes aligned filled, kept := filled - aligned })

/-- Answers to a read: tells what it was offered, what it came to, and what the decoder gets of it. What the
decoder makes of that is not asked. -/
def read (width : Nat) (b : TransferBuffer) (reading : Reading) : Intake × TransferBuffer :=
  match reading with
  | .data (byte :: more) =>
    let (slice?, rest) := b.receive width (byte :: more)
    ({ room := b.offered.length, reading, slice? }, rest)
  | .data [] | .unavailable | .lost | .crashed =>
    ({ room := b.offered.length, reading, slice? := none }, b)

def readAll (width : Nat) (b : TransferBuffer) : List Reading → List Intake × TransferBuffer
  | [] => ([], b)
  | reading :: later =>
    let (intake, b) := b.read width reading
    let (intakes, b) := b.readAll width later
    (intake :: intakes, b)

/-- The buffer has its size, and less than a unit is kept in it. -/
structure Sound (width size : Nat) (b : TransferBuffer) : Prop where
  length_eq : b.bytes.length = size
  kept_lt : b.kept < width
  width_le : width ≤ size

theorem sound_empty {width size : Nat} (hwidth : 0 < width) (hle : width ≤ size) :
    (empty size).Sound width size :=
  ⟨List.length_replicate, hwidth, hle⟩

variable {width size : Nat} {b : TransferBuffer} {read : List UInt8}

namespace Sound

theorem length_front (h : b.Sound width size) : b.front.length = b.kept := by
  have hkept := h.kept_lt
  have hwidth := h.width_le
  rw [front, List.length_take, h.length_eq]
  omega

theorem length_offered (h : b.Sound width size) : b.offered.length = size - b.kept := by
  rw [offered, List.length_drop, h.length_eq]

/-- A read is never offered an empty part: the buffer has more room than a unit is short of. -/
theorem room (h : b.Sound width size) :
    0 < b.offered.length ∧ b.offered.length ≤ size ∧ size < b.offered.length + width := by
  have hkept := h.kept_lt
  have hwidth := h.width_le
  rw [h.length_offered]
  omega

end Sound

theorem take_fill (h : b.Sound width size) (read : List UInt8) :
    (b.fill read).take (b.kept + read.length) = b.front ++ read := by
  have hlength : (b.front ++ read).length = b.kept + read.length := by
    rw [List.length_append, h.length_front]
  rw [fill, ← hlength]
  exact List.take_left

theorem length_fill (h : b.Sound width size) (hread : read.length ≤ b.offered.length) :
    (b.fill read).length = size := by
  have hfront := h.length_front
  have hkept := h.kept_lt
  have hwidth := h.width_le
  rw [h.length_offered] at hread
  rw [front] at hfront
  rw [fill, List.length_append, List.length_append, List.length_drop, hfront, h.length_eq]
  omega

section Moving

variable {bytes : List UInt8} {first behind : Nat}

theorem take_moveToFront (hbehind : behind ≤ bytes.length) :
    (moveToFront bytes first behind).take (behind - first) = (bytes.take behind).drop first := by
  have hlength : ((bytes.take behind).drop first).length = behind - first := by
    rw [List.length_drop, List.length_take, Nat.min_eq_left hbehind]
  rw [moveToFront, ← hlength]
  exact List.take_left

theorem length_moveToFront (hbehind : behind ≤ bytes.length) :
    (moveToFront bytes first behind).length = bytes.length := by
  rw [moveToFront, List.length_append, List.length_drop, List.length_drop, List.length_take,
    Nat.min_eq_left hbehind]
  omega

end Moving

/-- A read completes the units at the front: the whole ones go to the decoder, and the bytes of an
incomplete one are at the front again. -/
theorem receive_eq (h : b.Sound width size) (hread : read.length ≤ b.offered.length) :
    (b.receive width read).1 = (let whole := (partUnits width (b.front ++ read)).1
      if whole.isEmpty then none else some whole) ∧
    (b.receive width read).2.front = (partUnits width (b.front ++ read)).2 ∧
    (b.receive width read).2.Sound width size := by
  have hwidth : 0 < width := Nat.zero_lt_of_lt h.kept_lt
  have hfill := take_fill h read
  have hbytes := length_fill h hread
  have hfilled : (b.front ++ read).length = b.kept + read.length := by
    rw [List.length_append, h.length_front]
  have hbehind : b.kept + read.length ≤ (b.fill read).length := by
    have hle := congrArg List.length hfill
    rw [hfilled, List.length_take] at hle
    omega
  have hwhole : (partUnits width (b.front ++ read)).1 =
      (b.fill read).take (b.kept + read.length - (b.kept + read.length) % width) := by
    rw [partUnits_fst, hfilled, ← hfill, List.take_take, Nat.min_eq_left (Nat.sub_le ..)]
  have hrest : (partUnits width (b.front ++ read)).2 = ((b.fill read).take (b.kept + read.length)).drop
      (b.kept + read.length - (b.kept + read.length) % width) := by
    rw [partUnits, List.splitAt_eq, hfilled, hfill]
  refine ⟨?_, (take_moveToFront hbehind).trans hrest.symm, ?_⟩
  · have hsome : b.fill read ≠ [] :=
      List.length_pos_iff.1 (hbytes ▸ Nat.lt_of_lt_of_le hwidth h.width_le)
    simp only [receive, hwhole, List.isEmpty_iff, List.take_eq_nil_iff, hsome, or_false]
    split
    · rw [if_neg (Nat.ne_of_gt ‹_›)]
    · rw [if_pos (Nat.eq_zero_of_not_pos ‹_›)]
  · refine ⟨(length_moveToFront hbehind).trans hbytes, ?_, h.width_le⟩
    have hmod := Nat.mod_lt (b.kept + read.length) hwidth
    have hle := Nat.mod_le (b.kept + read.length) width
    change b.kept + read.length - (b.kept + read.length - (b.kept + read.length) % width) < width
    omega

/-- What became of reads into a buffer. Each was offered a part of it that is not empty. The slices that
the decoder was given hold whole units, and they are, with the bytes at the front behind them, those that
were at the front before and those that were read. -/
structure Framed (width size : Nat) (b : TransferBuffer) (intakes : List Intake) (b' : TransferBuffer) :
    Prop where
  room : ∀ intake ∈ intakes, 0 < intake.room ∧ intake.room ≤ size ∧ size < intake.room + width
  slice : ∀ slice ∈ intakes.filterMap Intake.slice?,
    slice ≠ [] ∧ width ∣ slice.length ∧ slice.length ≤ size
  sound : b'.Sound width size
  whole : (intakes.filterMap Intake.slice?).flatten ++ b'.front =
    b.front ++ delivered (intakes.map Intake.reading)

namespace Framed

variable {b₁ b₂ b₃ : TransferBuffer} {intakes later : List Intake}

theorem nil (h : b.Sound width size) : Framed width size b [] b where
  room := List.forall_mem_nil _
  slice := List.forall_mem_nil _
  sound := h
  whole := (List.append_nil _).symm

theorem append (h : Framed width size b₁ intakes b₂) (hlater : Framed width size b₂ later b₃) :
    Framed width size b₁ (intakes ++ later) b₃ where
  room intake hmem := (List.mem_append.1 hmem).elim (h.room intake) (hlater.room intake)
  slice slice hmem := by
    rw [List.filterMap_append] at hmem
    exact (List.mem_append.1 hmem).elim (h.slice slice) (hlater.slice slice)
  sound := hlater.sound
  whole := by
    rw [List.filterMap_append, List.flatten_append, List.append_assoc, hlater.whole, ← List.append_assoc,
      h.whole, List.append_assoc, List.map_append, delivered_append]

end Framed

theorem framed_idle (h : b.Sound width size) {reading : Reading} (hnone : delivered [reading] = []) :
    Framed width size b [⟨b.offered.length, reading, none⟩] b where
  room := List.forall_mem_singleton.2 h.room
  slice := List.forall_mem_nil _
  sound := h
  whole := by
    rw [List.map_singleton, hnone, List.append_nil]
    rfl

/-- A read that brings bytes hands the whole units on, if there are any, and keeps the rest. -/
theorem framed_receive (h : b.Sound width size) (hread : read.length ≤ b.offered.length) :
    Framed width size b [⟨b.offered.length, .data read, (b.receive width read).1⟩]
      (b.receive width read).2 := by
  obtain ⟨hslice, hfront, hsound⟩ := receive_eq h hread
  have hparts := partUnits_append width (b.front ++ read)
  have hdvd := dvd_length_partUnits width (b.front ++ read)
  have hfits : (partUnits width (b.front ++ read)).1.length ≤ size := by
    have hlength := congrArg List.length hparts
    have hkept := h.kept_lt
    have hwidth := h.width_le
    rw [h.length_offered] at hread
    rw [List.length_append, List.length_append, h.length_front] at hlength
    omega
  have hdelivered : delivered [.data read] = read := List.append_nil read
  rcases hwhole : (partUnits width (b.front ++ read)).1 with _ | ⟨byte, more⟩
  · -- without a whole unit there is no call, and all stays at the front
    rw [hwhole] at hslice hparts
    refine ⟨List.forall_mem_singleton.2 h.room, ?_, hsound, ?_⟩
    · rw [hslice]
      exact List.forall_mem_nil _
    · rw [hslice, hfront, List.map_singleton, hdelivered]
      exact hparts
  · rw [hwhole] at hslice hparts hdvd hfits
    refine ⟨List.forall_mem_singleton.2 h.room, ?_, hsound, ?_⟩
    · rw [hslice]
      exact List.forall_mem_singleton.2 ⟨List.cons_ne_nil _ _, hdvd, hfits⟩
    · have hflat : [byte :: more].flatten = byte :: more := List.append_nil _
      rw [hslice, hfront, List.map_singleton, hdelivered]
      exact (congrArg (· ++ _) hflat).trans hparts

theorem framed_read (h : b.Sound width size) {reading : Reading}
    (hfits : (b.read width reading).1.Fits) :
    Framed width size b [(b.read width reading).1] (b.read width reading).2 := by
  cases reading with
  | data bytes =>
    cases bytes with
    | nil => exact framed_idle h rfl
    | cons byte more => exact framed_receive h (hfits _ rfl)
  | unavailable | lost | crashed => exact framed_idle h rfl

/-- However short the reads are, every slice that the decoder is given is whole, and no byte is lost. -/
theorem framed_readAll (h : b.Sound width size) {readings : List Reading}
    (hfits : ∀ intake ∈ (b.readAll width readings).1, intake.Fits) :
    Framed width size b (b.readAll width readings).1 (b.readAll width readings).2 := by
  induction readings generalizing b with
  | nil => exact .nil h
  | cons reading readings ih =>
    obtain ⟨hfirst, hrest⟩ := List.forall_mem_cons.1 hfits
    have hread := framed_read h hfirst
    exact hread.append (ih hread.sound hrest)

end TransferBuffer

namespace Worker

open TransferBuffer

def readWithin (room : Nat) (w : Worker dev t) : Producer (Reading × Worker dev t) := do
  let backlog ← w.backlog
  if 0 < backlog then
    return (.unavailable, w)
  else
    let (reading, transport) := t.read w.transport room
    return (reading, { w with transport })

theorem readWithin_room (w : Worker dev t) :
    w.readWithin (w.transferSize - w.carried.length) = w.read :=
  rfl

/-- Receiving that also tells what the decoder was called with, if it was called. -/
def receiveTelling (w : Worker dev t) (bytes : List UInt8) :
    Producer (Option (List UInt8) × Worker dev t) := do
  let (whole, carried) := partUnits dev.unitWidth (w.carried ++ bytes)
  let totals := { w.totals with bytes := w.totals.bytes + bytes.length }
  let w := { w with carried, totals }
  if whole.isEmpty then
    return (none, w)
  else
    let (decoder, result) ← w.decoder.decode whole
    let failed := if result.isOk then 0 else 1
    let totals := { w.totals with
      buffers := w.totals.buffers + 1
      decodeErrors := w.totals.decodeErrors + failed }
    return (some whole, { w with decoder, totals })

theorem receiveTelling_forget (w : Worker dev t) (bytes : List UInt8) :
    Prod.snd <$> w.receiveTelling bytes = w.receive bytes := by
  unfold receiveTelling receive
  dsimp only
  split
  · rfl
  · simp only [map_bind]
    rfl

/-- Responding that also tells what the decoder was called with. -/
def respondTelling (w : Worker dev t) : Reading → Producer (Option (List UInt8) × Turn dev t)
  | .unavailable => return (none, .again w)
  | .data [] | .lost => return (none, .finished (← w.windUp))
  | .data bytes => do
    let (slice?, w) ← w.receiveTelling bytes
    return (slice?, .again w)
  | .crashed => return (none, .crashed)

theorem respondTelling_forget (w : Worker dev t) (reading : Reading) :
    Prod.snd <$> w.respondTelling reading = w.respond reading := by
  have hend : (Prod.snd <$> (do return (none, .finished (← w.windUp)) :
      Producer (Option (List UInt8) × Turn dev t))) = (do return .finished (← w.windUp)) := by
    simp only [map_bind]
    rfl
  cases reading with
  | data bytes =>
    cases bytes with
    | nil => exact hend
    | cons byte more =>
      change _ = (do return Turn.again (← w.receive (byte :: more)))
      rw [← receiveTelling_forget]
      simp only [respondTelling, map_bind, bind_map_left]
      rfl
  | lost => exact hend
  | unavailable | crashed => rfl

/-- A turn that also tells what its read was offered, what it came to, and what the decoder got. -/
def record (w : Worker dev t) : Producer (Option Intake × Turn dev t) := do
  if ← Producer.perform .isRunning then
    let room := w.transferSize - w.carried.length
    let (reading, w) ← w.readWithin room
    let (slice?, turn) ← w.respondTelling reading
    return (some { room, reading, slice? }, turn)
  else
    return (none, .finished w)

theorem record_forget (w : Worker dev t) :
    Prod.map (Option.map Intake.reading) id <$> w.record = w.listen := by
  unfold record listen
  rw [map_bind]
  refine bind_congr fun running => ?_
  split
  · simp only [map_bind, readWithin_room]
    refine bind_congr fun ⟨reading, w⟩ => ?_
    dsimp only
    rw [← respondTelling_forget, bind_map_left]
    rfl
  · rfl

/-- The bytes that a worker carries are those at the front of a buffer of its size. -/
structure HeldBy (size : Nat) (b : TransferBuffer) (w : Worker dev t) : Prop where
  sound : b.Sound dev.unitWidth size
  transferSize_eq : w.transferSize = size
  carried_eq : w.carried = b.front

variable {w w' : Worker dev t} {size : Nat} {b : TransferBuffer} {steps : List Step}

theorem HeldBy.room (h : w.HeldBy size b) :
    w.transferSize - w.carried.length = b.offered.length := by
  rw [h.transferSize_eq, h.carried_eq, h.sound.length_front, h.sound.length_offered]

theorem trace_readWithin {room : Nat} {reading : Reading}
    (h : Trace (w.readWithin room) steps (reading, w')) :
    (∀ bytes, reading = .data bytes → bytes.length ≤ room) ∧
      ∃ transport, w' = { w with transport } := by
  obtain ⟨level, _, _, -, hread, -⟩ := h.of_bind
  split at hread
  · cases hread
    exact ⟨fun _ h => (nomatch h), w.transport, rfl⟩
  · cases hread
    exact ⟨t.length_le _ _, _, rfl⟩

theorem HeldBy.receive (h : w.HeldBy size b) {bytes : List UInt8}
    (hfits : bytes.length ≤ b.offered.length) {slice? : Option (List UInt8)}
    (htrace : Trace (w.receiveTelling bytes) steps (slice?, w')) :
    slice? = (b.receive dev.unitWidth bytes).1 ∧
      w'.HeldBy size (b.receive dev.unitWidth bytes).2 := by
  obtain ⟨hslice, hfront, hsound⟩ := receive_eq h.sound hfits
  unfold receiveTelling at htrace
  rw [h.carried_eq] at htrace
  rw [hslice]
  dsimp only at htrace ⊢
  split at htrace
  · rename_i hempty
    cases htrace
    exact ⟨(if_pos hempty).symm, hsound, h.transferSize_eq, hfront.symm⟩
  · rename_i hsome
    obtain ⟨⟨d, result⟩, _, _, -, hend, -⟩ := htrace.of_bind
    cases hend
    exact ⟨(if_neg hsome).symm, hsound, h.transferSize_eq, hfront.symm⟩

theorem HeldBy.windUp (h : w.HeldBy size b) (htrace : Trace w.windUp steps w') :
    w'.HeldBy size b := by
  obtain ⟨_, -, rfl⟩ := trace_windUp htrace (b := { decoder := w.decoder }) rfl
  exact ⟨h.sound, h.transferSize_eq, h.carried_eq⟩

end Worker

/-- The worker that a turn left, if there is one, is held by a buffer. -/
def Turn.HeldBy (size : Nat) (b : TransferBuffer) : Turn dev t → Prop
  | .again w | .finished w => w.HeldBy size b
  | .crashed => True

namespace Worker

variable {w : Worker dev t} {size : Nat} {b : TransferBuffer} {steps : List Step}

/-- A worker responds to a read as its buffer does. -/
theorem HeldBy.respond (h : w.HeldBy size b) {reading : Reading} {slice? : Option (List UInt8)}
    {turn : Turn dev t} (htrace : Trace (w.respondTelling reading) steps (slice?, turn))
    (hfits : ∀ bytes, reading = .data bytes → bytes.length ≤ b.offered.length) :
    (⟨b.offered.length, reading, slice?⟩ : Intake) = (b.read dev.unitWidth reading).1 ∧
      turn.HeldBy size (b.read dev.unitWidth reading).2 := by
  have hend (hdone : Trace (do return (none, .finished (← w.windUp))) steps (slice?, turn)) :
      slice? = none ∧ turn.HeldBy size b := by
    obtain ⟨w', _, _, hwind, hdone, -⟩ := Trace.of_bind (p := w.windUp) hdone
    cases hdone
    exact ⟨rfl, h.windUp hwind⟩
  cases reading with
  | data bytes =>
    cases bytes with
    | nil =>
      obtain ⟨rfl, hheld⟩ := hend htrace
      exact ⟨rfl, hheld⟩
    | cons byte more =>
      obtain ⟨⟨_, w'⟩, _, _, hmore, hdone, -⟩ :=
        Trace.of_bind (p := w.receiveTelling (byte :: more)) htrace
      cases hdone
      obtain ⟨rfl, hheld⟩ := h.receive (hfits _ rfl) hmore
      exact ⟨rfl, hheld⟩
  | lost =>
    obtain ⟨rfl, hheld⟩ := hend htrace
    exact ⟨rfl, hheld⟩
  | unavailable =>
    cases htrace
    exact ⟨rfl, h⟩
  | crashed =>
    cases htrace
    exact ⟨rfl, trivial⟩

/-- A turn does what its buffer does, with a read that brings no more bytes than the buffer offers. -/
theorem HeldBy.record (h : w.HeldBy size b) {intake? : Option Intake} {turn : Turn dev t}
    (htrace : Trace w.record steps (intake?, turn)) :
    (intake? = none ∧ turn = .finished w) ∨
      ∃ intake, intake? = some intake ∧ intake.Fits ∧
        (b.read dev.unitWidth intake.reading).1 = intake ∧
        turn.HeldBy size (b.read dev.unitWidth intake.reading).2 := by
  unfold Worker.record at htrace
  obtain ⟨running, _, _, -, htrace, -⟩ := htrace.of_bind
  split at htrace
  · obtain ⟨⟨reading, w₁⟩, _, _, hread, htrace, -⟩ := htrace.of_bind
    obtain ⟨⟨slice?, turn'⟩, _, _, hrespond, hdone, -⟩ := htrace.of_bind
    cases hdone
    obtain ⟨hfits, transport, rfl⟩ := trace_readWithin hread
    have hheld : ({ w with transport } : Worker dev t).HeldBy size b :=
      ⟨h.sound, h.transferSize_eq, h.carried_eq⟩
    rw [h.room] at hfits ⊢
    obtain ⟨hintake, hnext⟩ := hheld.respond hrespond hfits
    exact .inr ⟨_, rfl, hfits, hintake.symm, hnext⟩
  · cases htrace
    exact .inl ⟨rfl, rfl⟩

theorem exists_record {x x' : Exchange} {log : List Occurrence} {reading? : Option Reading}
    {turn : Turn dev t} (h : Execution w.listen x log (reading?, turn) x') :
    ∃ intake?, Execution w.record x log (intake?, turn) x' ∧ intake?.map Intake.reading = reading? := by
  rw [← record_forget] at h
  obtain ⟨⟨intake?, _⟩, hrecord, hforget⟩ := h.of_map
  cases hforget
  exact ⟨intake?, hrecord, rfl⟩

end Worker

/-- Turns that follow one another, with what their reads led to. -/
inductive Intakes : Turn dev t → Exchange → List Occurrence → List Intake → Turn dev t → Exchange →
    Prop where
  | rest (turn x) : Intakes turn x [] [] turn x
  | turn {w x log intake? turn x₁ later intakes last x₂} :
      Execution w.record x log (intake?, turn) x₁ → Intakes turn x₁ later intakes last x₂ →
      Intakes (.again w) x (log ++ later) (intake?.toList ++ intakes) last x₂

/-- Every life can be told with what its reads led to. -/
theorem Life.exists_intakes {first last : Turn dev t} {x x' : Exchange} {log : List Occurrence}
    {readings : List Reading} (h : Life first x log readings last x') :
    ∃ intakes, Intakes first x log intakes last x' ∧ intakes.map Intake.reading = readings := by
  induction h with
  | rest turn x => exact ⟨[], .rest turn x, rfl⟩
  | turn hlisten _ ih =>
    obtain ⟨intake?, hrecord, rfl⟩ := Worker.exists_record hlisten
    obtain ⟨intakes, hlater, rfl⟩ := ih
    refine ⟨_, .turn hrecord hlater, ?_⟩
    cases intake? <;> rfl

/-- The reads of a worker are those of its buffer, which goes on to hold what the worker carries. -/
theorem Intakes.read {first last : Turn dev t} {x x' : Exchange} {log : List Occurrence}
    {intakes : List Intake} (h : Intakes first x log intakes last x') {size : Nat} {b : TransferBuffer}
    (hheld : first.HeldBy size b) :
    (∀ intake ∈ intakes, intake.Fits) ∧
      (b.readAll dev.unitWidth (intakes.map Intake.reading)).1 = intakes ∧
      last.HeldBy size (b.readAll dev.unitWidth (intakes.map Intake.reading)).2 := by
  -- the buffer that holds the worker changes with each turn, so the induction is for all of them
  induction h generalizing b with
  | rest => exact ⟨List.forall_mem_nil _, rfl, hheld⟩
  | @turn w _ _ intake? turn _ _ intakes _ _ hrecord hlater ih =>
    rcases Worker.HeldBy.record hheld hrecord.trace with
      ⟨rfl, rfl⟩ | ⟨intake, rfl, hfits, hintake, hnext⟩
    · exact ih hheld
    · obtain ⟨hlater, hintakes, hlast⟩ := ih hnext
      exact ⟨List.forall_mem_cons.2 ⟨hfits, hlater⟩,
        (congrArg (· :: _) hintake).trans (congrArg (intake :: ·) hintakes), hlast⟩

/-- Whatever a transport brings and whatever the calls of the decoder come to, the reads of a worker are
those of one buffer that is used again and again. -/
theorem Intakes.framed_of_start {settings : Settings} {source : t.State} {paced : Bool}
    {w : Worker dev t} (hstart : Worker.start dev settings t source paced = .ok w) :
    (∀ {x log readings last x'}, Life (.again w) x log readings last x' →
      ∃ intakes, Intakes (.again w) x log intakes last x' ∧
        intakes.map Intake.reading = readings) ∧
    ∀ {x log intakes last x'}, Intakes (.again w) x log intakes last x' →
      ∃ b, (TransferBuffer.empty settings.transferSize).readAll dev.unitWidth
          (intakes.map Intake.reading) = (intakes, b) ∧
        TransferBuffer.Framed dev.unitWidth settings.transferSize
          (TransferBuffer.empty settings.transferSize) intakes b ∧
        last.HeldBy settings.transferSize b := by
  have hfresh := Worker.start_ok hstart
  have hempty := TransferBuffer.sound_empty hfresh.width_pos hfresh.width_le
  have hheld : (Turn.again w).HeldBy settings.transferSize
      (TransferBuffer.empty settings.transferSize) :=
    ⟨hempty, hfresh.transferSize_eq, hfresh.carried_eq⟩
  refine ⟨Life.exists_intakes, fun h => ?_⟩
  obtain ⟨hfits, hread, hlast⟩ := h.read hheld
  have hframed := TransferBuffer.framed_readAll hempty (hread.symm ▸ hfits)
  rw [hread] at hframed
  exact ⟨_, Prod.ext hread rfl, hframed, hlast⟩

section Sample

open Worker

def cutPieces : List Piece :=
  [.data (sampleBytes.take 3), .unavailable, .data ((sampleBytes.drop 3).take 7),
    .data (sampleBytes.drop 10)]

def cutReadings : List Reading :=
  [.data (sampleBytes.take 3), .unavailable, .data ((sampleBytes.drop 3).take 7),
    .data (sampleBytes.drop 10), .data []]

theorem Intakes.framed_of_start_dvs128 :
    ∃ (source : Source) (paced : Bool) (first last : Worker Wire.Dvs128.device Source.transport)
      (x x' : Exchange) (log : List Occurrence) (intakes : List Intake),
      Worker.start Wire.Dvs128.device {} Source.transport source paced = .ok first ∧
      Intakes (.again first) x log intakes (.finished last) x' ∧
      intakes.filterMap Intake.slice? = [sampleBytes.take 8, (sampleBytes.drop 8).take 12] ∧
      last.carried = [1, 2] := by
  have hserved : servedAlone Wire.Dvs128.device {} { pieces := cutPieces } cutReadings := by
    decide +kernel
  have hslices : ((TransferBuffer.empty 8192).readAll 4 cutReadings).1.filterMap Intake.slice? =
      [sampleBytes.take 8, (sampleBytes.drop 8).take 12] := by
    decide +kernel
  have hkept : ((TransferBuffer.empty 8192).readAll 4 cutReadings).2.front = [1, 2] := by
    decide +kernel
  obtain ⟨last, log, ⟨source, paced, first, x, x', hstart, hlife⟩, -, -⟩ := exists_served hserved
  obtain ⟨hlives, hframed⟩ := Intakes.framed_of_start hstart
  obtain ⟨intakes, hintakes, hreadings⟩ := hlives hlife
  obtain ⟨b, hread, -, hlast⟩ := hframed hintakes
  rw [hreadings] at hread
  obtain ⟨rfl, rfl⟩ := Prod.mk.inj hread
  exact ⟨source, paced, first, last, x, x', log, _, hstart, hintakes, hslices,
    hlast.carried_eq.trans hkept⟩

end Sample

end EventCamera
