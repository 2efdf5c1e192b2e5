import EventCamera.Batch
import EventCamera.Clock
import EventCamera.Producer
import EventCamera.Settings

/-! # Collecting events into containers

The collector holds the clock and the batch being filled. It seals the batch when a buffer has
reached its size, when the deadline has passed, or when it has to; and it hands what it sealed to
the exchange. A timestamp reset seals what came before it, and then travels alone in a container
that is never dropped while the acquisition is running. -/

namespace EventCamera

/-- Why a batch has to be sealed at once. -/
inductive Forced where
  | reset
  | epochEnd
  deriving DecidableEq, Repr

/-- What two parts of a unit force together: a reset outranks the end of an epoch. -/
def Forced.merge : Option Forced → Option Forced → Option Forced
  | some .reset, _ => some .reset
  | earlier, none => earlier
  | _, later => later

/-- What became of a batch. -/
inductive Outcome where
  /-- There was no reason to seal it. -/
  | accumulating
  /-- It was sealed without an event, and nothing was handed on. -/
  | empty
  | published
  /-- The queue had no room, and the container was dropped. -/
  | dropped
  /-- The acquisition was stopped while a reset waited for room. -/
  | resetAbandoned
  deriving DecidableEq, Repr

/-- How often a container met each end. -/
structure CommitTotals where
  published : Nat := 0
  dropped : Nat := 0
  resetsAbandoned : Nat := 0
  deriving DecidableEq, Repr

def CommitTotals.record (t : CommitTotals) : Outcome → CommitTotals
  | .published => { t with published := t.published + 1 }
  | .dropped => { t with dropped := t.dropped + 1 }
  | .resetAbandoned => { t with resetsAbandoned := t.resetsAbandoned + 1 }
  | .accumulating | .empty => t

/-- The containers of one sealing, in the order in which they are handed on. -/
structure Sealing where
  /-- The events so far; empty if there were none. -/
  data : Container
  /-- The container of a reset, if the sealing was for one and there was memory for it. -/
  reset : Except GrowthError (Option Container)

namespace Sealing

def reset? (s : Sealing) : Option Container :=
  match s.reset with
  | .ok reset? => reset?
  | .error _ => none

/-- Why the container of a reset is missing. -/
def fault? (s : Sealing) : Option GrowthError :=
  match s.reset with
  | .ok _ => none
  | .error e => some e

end Sealing

/-- The clock, the events collected by it, and when they have to be handed on. -/
structure Collector where
  /-- A buffer with this many events is sealed; zero turns this off. -/
  sizeLimit : Nat
  /-- Microseconds from one deadline to the next. -/
  interval : Int
  /-- The most bytes that can be reserved at once. -/
  memory : Nat
  clock : Clock
  batch : Batch
  totals : CommitTotals := {}

namespace Collector

def start (settings : Settings) (clock : Clock) : Except GrowthError Collector := do
  let batch ← Batch.start settings.capacityLimit settings.memory.atStart
  return {
    sizeLimit := settings.maxEvents
    interval := settings.maxInterval
    memory := settings.memory.later
    clock
    batch }

/-- The number of events that wait to be sealed. -/
def pending (c : Collector) : Nat :=
  c.batch.size

def withClock (c : Collector) (f : Clock → Clock) : Collector :=
  { c with clock := f c.clock }

def withBatch (c : Collector) (f : Batch → Batch) : Collector :=
  { c with batch := f c.batch }

/-- The capacity that the buffer of a kind needs for further events. -/
def capacityFor (c : Collector) (k : EventKind) (more : Nat) : Except GrowthError Nat :=
  (c.batch.get k).capacityFor more c.memory

/-- Gives the buffer of a kind another capacity. -/
def withRoom (c : Collector) (k : EventKind) (capacity : Nat) : Collector :=
  c.withBatch (·.modify k (·.withRoom capacity))

/-- Adds an event to a buffer that has been given this capacity for it. -/
def append (c : Collector) (k : EventKind) (capacity : Nat) (event : k.Record) : Collector :=
  c.withBatch (·.modify k (·.append capacity event))

/-- Adds an event, making room for it first. -/
def push (c : Collector) (k : EventKind) (event : k.Record) : Except GrowthError Collector :=
  match c.capacityFor k 1 with
  | .ok capacity => .ok (c.append k capacity event)
  | .error e => .error e

/-- Whether a buffer has reached the size limit. -/
def isFull (c : Collector) : Bool :=
  0 < c.sizeLimit && (c.batch.collect fun _ => Buffer.size).any (c.sizeLimit ≤ ·)

/-- Takes the events out and moves the deadline on. Nothing changes if this fails. -/
def takeOut (c : Collector) (forced : Option Forced) :
    Except GrowthError (Sealing × Collector) := do
  let (data, batch) ← c.batch.pack c.clock.epoch c.clock.full c.memory
  let clock := c.clock.postpone c.interval
  let reset :=
    if forced = some .reset then
      (Container.makeReset clock.epoch clock.full c.memory).map some
    else
      .ok none
  return ({ data, reset }, { c with clock, batch })

/-- Takes the events out, if there is a reason to. -/
def settle (c : Collector) (forced : Option Forced) :
    Except GrowthError (Option Sealing × Collector) :=
  if forced.isNone && !c.isFull && !c.clock.isDue then
    .ok (none, c)
  else
    (c.takeOut forced).map fun (sealing, c) => (some sealing, c)

def publishData (data : Container) : Producer Outcome := do
  if data.isEmpty then
    return .empty
  if ← Producer.perform (.offer data) then
    Producer.perform (.report (.containerCommitted data.size))
    return .published
  else
    Producer.perform (.report (.containerDropped data.size))
    return .dropped

def publishReset (reset : Container) : Producer Outcome := do
  if ← Producer.perform (.deliver reset) then
    Producer.perform (.report .resetCommitted)
    return .published
  else
    Producer.perform (.report .resetAbandoned)
    return .resetAbandoned

/-- Hands on the containers of a sealing and counts what became of them. The outcome is that of
the last one. -/
def publish (c : Collector) (s : Sealing) : Producer (Outcome × Collector) := do
  let outcome ← publishData s.data
  let c := { c with totals := c.totals.record outcome }
  match s.reset? with
  | none => return (outcome, c)
  | some reset =>
    let outcome ← publishReset reset
    return (outcome, { c with totals := c.totals.record outcome })

/-- Hands on what was sealed, if anything was. -/
def handOn (c : Collector) : Option Sealing → Producer (Outcome × Collector)
  | none => return (.accumulating, c)
  | some sealing => c.publish sealing

/-- Seals the batch and hands it on. A failure comes before anything is done. That a reset has no
container shows in its sealing only. -/
def commit (c : Collector) (forced : Option Forced) :
    Except GrowthError (Producer (Outcome × Collector)) :=
  (c.takeOut forced).map fun (sealing, c) => c.publish sealing

/-- Seals the batch and hands it on, if there is a reason to. -/
def evaluate (c : Collector) (forced : Option Forced) :
    Except GrowthError (Producer (Outcome × Collector)) :=
  (c.settle forced).map fun (sealing?, c) => c.handOn sealing?

end Collector

end EventCamera
