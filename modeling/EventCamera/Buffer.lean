import EventCamera.Event

/-! # Buffers

A buffer collects the events of one kind within one epoch. It doubles its capacity when an event
would not fit, up to a limit; a growth that is refused leaves the buffer as it was. -/

namespace EventCamera

/-- The largest number of events that can be counted. -/
def maxCount : Nat := 0xffffffffffffffff

/-- The largest number of bytes that can be reserved at once, however much memory there is. -/
def maxReservation : Nat := 0x7fffffffffffffff

/-- The limit on the capacity of a buffer, unless set otherwise. -/
def defaultCapacityLimit : Nat := 0x7fffffff

/-- The most bytes that can be reserved at once. -/
structure Memory where
  /-- While an acquisition is set up. -/
  atStart : Nat := maxReservation
  /-- From then on. -/
  later : Nat := maxReservation
  deriving DecidableEq, Repr

/-- A buffer could not get the capacity it needs. -/
structure GrowthError where
  kind : EventKind
  capacity : Nat
  requested : Nat
  deriving DecidableEq, Repr

def GrowthError.message (e : GrowthError) : String :=
  s!"failed to grow {e.kind.label} buffer from {e.capacity} to {e.requested} events"

/-- Doubles a positive capacity until it covers a demand. -/
def doubledTo (demand capacity : Nat) : Nat :=
  if 0 < capacity ∧ capacity < demand then doubledTo demand (2 * capacity) else capacity
termination_by demand - capacity

/-- Events of one kind, in the order in which they were added. -/
structure Buffer (k : EventKind) where
  events : Array k.Record
  capacity : Nat
  limit : Nat
  epoch : Int

namespace Buffer

variable {k : EventKind}

/-- Grants a capacity that respects the limit and for which `memory` bytes are enough; `current` is
the capacity that a refusal reports to have been there before. -/
def grant (k : EventKind) (limit memory current requested : Nat) : Except GrowthError Nat :=
  if requested ≤ limit ∧ requested * k.recordSize ≤ min memory maxReservation then
    .ok requested
  else
    .error ⟨k, current, requested⟩

/-- An empty buffer for the given number of events, but for one event at least. -/
def withCapacity (k : EventKind) (capacity limit : Nat) (epoch : Int)
    (memory : Nat := maxReservation) : Except GrowthError (Buffer k) :=
  (grant k limit memory 0 (max capacity 1)).map fun granted => ⟨#[], granted, limit, epoch⟩

/-- An empty buffer of the usual capacity of its kind, or of the limit if that is less. -/
def ofKind (k : EventKind) (limit : Nat) (epoch : Int) (memory : Nat := maxReservation) :
    Except GrowthError (Buffer k) :=
  withCapacity k (min k.defaultCapacity limit) limit epoch memory

def size (b : Buffer k) : Nat :=
  b.events.size

def isEmpty (b : Buffer k) : Bool :=
  b.events.isEmpty

/-- The capacity that the buffer needs for `more` further events: its own while that covers them,
else the first doubling that does, both counts capped at `maxCount`. -/
def capacityFor (b : Buffer k) (more memory : Nat) : Except GrowthError Nat :=
  let demand := min (b.size + more) maxCount
  if demand ≤ b.capacity then
    .ok b.capacity
  else
    grant k b.limit memory b.capacity (min (doubledTo demand b.capacity) maxCount)

def withRoom (b : Buffer k) (capacity : Nat) : Buffer k :=
  { b with capacity }

def ensure (b : Buffer k) (more : Nat) (memory : Nat := maxReservation) :
    Except GrowthError (Buffer k) :=
  (b.capacityFor more memory).map b.withRoom

/-- Adds an event to a buffer that has been given this capacity for it. -/
def append (b : Buffer k) (capacity : Nat) (event : k.Record) : Buffer k :=
  { b with events := b.events.push event, capacity }

/-- Adds an event, making room for it first. -/
def push (b : Buffer k) (event : k.Record) (memory : Nat := maxReservation) :
    Except GrowthError (Buffer k) :=
  (b.capacityFor 1 memory).map (b.append · event)

/-- Moves an empty buffer to another epoch. Events that are there keep the epoch they came in. -/
def moveTo (b : Buffer k) (epoch : Int) : Buffer k :=
  if b.isEmpty then { b with epoch } else b

def timeOf (b : Buffer k) (event : k.Record) : Int :=
  fullTime b.epoch (k.time event)

/-- The full time of the first event. -/
def firstTime? (b : Buffer k) : Option Int :=
  b.events[0]?.map b.timeOf

/-- The full time of the last event. -/
def lastTime? (b : Buffer k) : Option Int :=
  b.events.back?.map b.timeOf

end Buffer

end EventCamera
