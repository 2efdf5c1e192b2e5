import EventCamera.Buffer
import EventCamera.PerKind

/-! # Containers

A container is a sealed set of buffers, at most one of each kind, that is handed to the consumer
as a whole. -/

namespace EventCamera

/-- Sealed buffers, with the epoch they were filled in and the full time at which they were
sealed. Only buffers that hold events are present. -/
structure Container where
  buffers : PerKind fun k => Option (Buffer k)
  epoch : Int
  highest : Int

namespace Container

def buffer? (c : Container) (k : EventKind) : Option (Buffer k) :=
  c.buffers.get k

def sizeOf (c : Container) (k : EventKind) : Nat :=
  (c.buffer? k).elim 0 Buffer.size

/-- The kinds of which the container has events. -/
def kinds (c : Container) : List EventKind :=
  EventKind.all.filter fun k => 0 < c.sizeOf k

def size (c : Container) : Nat :=
  (EventKind.all.map c.sizeOf).foldr (· + ·) 0

def isEmpty (c : Container) : Bool :=
  c.size == 0

/-- The least full time among the first events of the buffers. -/
def lowestEventTime? (c : Container) : Option Int :=
  (EventKind.all.filterMap fun k => (c.buffer? k).bind Buffer.firstTime?).min?

/-- The greatest full time among the last events of the buffers. -/
def highestEventTime? (c : Container) : Option Int :=
  (EventKind.all.filterMap fun k => (c.buffer? k).bind Buffer.lastTime?).max?

/-- Whether the container carries a timestamp reset and nothing else. -/
def isReset (c : Container) : Bool :=
  match c.buffers with
  | ⟨some special, none, none, none⟩ =>
    special.events.toList.map SpecialEvent.kind == [.timestampReset]
  | _ => false

/-- The container that carries a timestamp reset. -/
def reset (epoch highest : Int) : Container where
  buffers := ⟨some ⟨#[SpecialEvent.reset], 1, 1, epoch⟩, none, none, none⟩
  epoch := epoch
  highest := highest

/-- Makes the container that carries a timestamp reset. -/
def makeReset (epoch highest : Int) (memory : Nat) : Except GrowthError Container := do
  let buffer ← Buffer.withCapacity .special 1 1 epoch memory
  let special ← buffer.push SpecialEvent.reset memory
  return { buffers := ⟨some special, none, none, none⟩, epoch, highest }

/-- It is made if there is memory for its one event. -/
theorem makeReset_eq (epoch highest : Int) (memory : Nat) : makeReset epoch highest memory =
    if EventKind.recordSize .special ≤ memory then .ok (reset epoch highest)
    else .error ⟨.special, 0, 1⟩ := by
  have hiff : 1 * EventKind.recordSize .special ≤ min memory maxReservation ↔
      EventKind.recordSize .special ≤ memory := by
    have : EventKind.recordSize .special ≤ maxReservation := by decide
    omega
  unfold makeReset Buffer.withCapacity Buffer.grant
  by_cases h : EventKind.recordSize .special ≤ memory
  · rw [if_pos ⟨Nat.le_refl 1, hiff.2 h⟩, if_pos h]
    rfl
  · rw [if_neg fun hboth => h (hiff.1 hboth.2), if_neg h]
    rfl

theorem isReset_reset (epoch highest : Int) : (reset epoch highest).isReset = true := rfl

end Container

end EventCamera
