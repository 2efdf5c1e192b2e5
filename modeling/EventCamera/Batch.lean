import EventCamera.Container

/-! # Batches

The buffers that are being filled, one of each kind. Sealing takes the events out and leaves
empty buffers behind. -/

namespace EventCamera

/-- A buffer of each kind. -/
abbrev Batch : Type := PerKind Buffer

/-- What sealing leaves of a buffer: the filled one, if it holds events, and the one that takes
its place. -/
structure Buffer.Split (k : EventKind) where
  filled : Option (Buffer k)
  fresh : Buffer k

/-- Parts a buffer from its events. The buffer left behind is in the given epoch. -/
def Buffer.split {k : EventKind} (b : Buffer k) (epoch : Int) (memory : Nat) :
    Except GrowthError (Buffer.Split k) :=
  if b.isEmpty then
    .ok ⟨none, b.moveTo epoch⟩
  else
    (Buffer.ofKind k b.limit epoch memory).map fun fresh => ⟨some b, fresh⟩

namespace Batch

/-- Empty buffers in epoch zero. -/
def start (limit memory : Nat) : Except GrowthError Batch := do
  return {
    special := ← Buffer.ofKind .special limit 0 memory
    polarity := ← Buffer.ofKind .polarity limit 0 memory
    frame := ← Buffer.ofKind .frame limit 0 memory
    imu6 := ← Buffer.ofKind .imu6 limit 0 memory }

def size (b : Batch) : Nat :=
  (b.collect fun _ => Buffer.size).foldr (· + ·) 0

/-- The epoch of the first buffer, in the order of the kinds, that holds events. -/
def epoch (b : Batch) : Int :=
  let filled := (b.collect fun _ buffer => (buffer.isEmpty, buffer.epoch)).find? fun p => !p.1
  filled.elim b.special.epoch Prod.snd

/-- Moves the events into a container. Every buffer left behind is empty and in the given epoch.
Nothing happens if one of them cannot be allocated. -/
def pack (b : Batch) (epoch highest : Int) (memory : Nat) :
    Except GrowthError (Container × Batch) := do
  let parts ← b.mapExcept fun _ buffer => buffer.split epoch memory
  let sealed : Container :=
    { buffers := parts.map fun _ part => part.filled, epoch := b.epoch, highest }
  return (sealed, parts.map fun _ part => part.fresh)

end Batch

end EventCamera
