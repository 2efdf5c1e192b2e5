import EventCamera.Notice

/-! # The device clock

A device sends a short tick counter, and a wrap marker whenever the counter starts over. The
clock expands ticks to event times, counts the epochs, and keeps the deadline at which the events
collected so far have to be handed on. -/

namespace EventCamera

/-- Which steps of the event time are in order. -/
inductive TimeOrder where
  /-- Every update has to move the time forward. -/
  | strict
  /-- An update may repeat a time. -/
  | nonDecreasing
  deriving DecidableEq, Repr

/-- Whether a step from `last` to `current` breaks the order. -/
def TimeOrder.broken (order : TimeOrder) (last current : Int) : Bool :=
  match order with
  | .strict => current ≤ last
  | .nonDecreasing => current < last

/-- The time of a device. -/
structure Clock where
  /-- Microseconds that one wrap marker stands for. -/
  wrapUnit : Int
  order : TimeOrder
  current : Int := 0
  last : Int := 0
  /-- The time of tick zero in the present turn of the counter. -/
  base : Int := 0
  /-- The count of epochs, a signed number of 32 bits. -/
  epoch : Int := 0
  deadline : Option Int := none
  deriving DecidableEq, Repr

namespace Clock

def full (c : Clock) : Int :=
  fullTime c.epoch c.current

/-- Expands a tick. A time beyond the range of event times stays at its end. -/
def tick (c : Clock) (ticks : UInt32) : Clock :=
  { c with
    last := c.current
    current := min (c.base + min (ticks.toNat : Int) maxTime) maxTime }

/-- The time of tick zero after wrap markers worth `multiplier` turns, before it is brought back
into the range of event times. -/
def wrapSum (c : Clock) (multiplier : UInt32) : Int :=
  c.base + c.wrapUnit * multiplier.toNat

/-- Whether wrap markers worth `multiplier` turns end the epoch. -/
def endsEpoch (c : Clock) (multiplier : UInt32) : Bool :=
  maxTime < c.wrapSum multiplier

/-- Applies a wrap marker. A sum beyond the range of event times starts the next epoch at its
remainder, however many epochs it spans; any other sum is kept to its low 32 bits, as is the count
of epochs. -/
def wrap (c : Clock) (multiplier : UInt32) : Clock :=
  if c.endsEpoch multiplier then
    let rest := (c.wrapSum multiplier - epochLength) % epochLength
    let epoch := Int.bmod (c.epoch + 1) 0x100000000
    { c with base := rest, last := rest, current := rest, epoch }
  else
    let base := Int.bmod (c.wrapSum multiplier) 0x100000000
    { c with base, last := c.current, current := base }

/-- Starts the time over, and drops the deadline with it. -/
def reset (c : Clock) : Clock :=
  { c with current := 0, last := 0, base := 0, epoch := 0, deadline := none }

/-- Sets the deadline one interval after the current time, unless there is one. -/
def arm (c : Clock) (interval : Int) : Clock :=
  match c.deadline with
  | some _ => c
  | none => { c with deadline := some (c.current + max interval 1 - 1) }

def disarm (c : Clock) : Clock :=
  { c with deadline := none }

/-- Whether the full time has passed the deadline. -/
def isDue (c : Clock) : Bool :=
  match c.deadline with
  | some deadline => deadline < c.full
  | none => false

/-- Moves a deadline that has passed by the fewest whole intervals that bring it up to the full
time. -/
def postpone (c : Clock) (interval : Int) : Clock :=
  match c.deadline with
  | some deadline =>
    if deadline < c.full then
      let step := max interval 1
      let steps := (c.full - deadline + step - 1) / step
      { c with deadline := some (deadline + steps * step) }
    else
      c
  | none => c

/-- A clock at time zero. -/
def start (wrapUnit : Int) (order : TimeOrder) : Clock :=
  { wrapUnit, order }

/-- What can happen to a clock. -/
inductive Update where
  | tick (ticks : UInt32)
  | wrap (multiplier : UInt32)
  | reset
  | arm (interval : Int)
  | disarm
  | postpone (interval : Int)
  deriving DecidableEq, Repr

def apply (c : Clock) : Update → Clock
  | .tick ticks => c.tick ticks
  | .wrap multiplier => c.wrap multiplier
  | .reset => c.reset
  | .arm interval => c.arm interval
  | .disarm => c.disarm
  | .postpone interval => c.postpone interval

/-- The complaint about a last step that breaks the order. -/
def complaint (c : Clock) : List Notice :=
  if c.order.broken c.last c.current then [.timeWentBack c.last c.current] else []

/-- What an update reports. Only ticks and wraps within an epoch are held to the order. -/
def notices (c : Clock) : Update → List Notice
  | .tick ticks => (c.tick ticks).complaint
  | .wrap multiplier => if c.endsEpoch multiplier then [] else (c.wrap multiplier).complaint
  | _ => []

end Clock

end EventCamera
