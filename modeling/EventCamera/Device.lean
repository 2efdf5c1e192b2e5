import EventCamera.Clock
import EventCamera.Composite

/-! # Devices

A device sends a stream of units of fixed width. What it means by them is said in codes that do
not depend on the device. -/

namespace EventCamera

/-- The meaning of a part of a unit. -/
inductive Code where
  | tick (ticks : UInt32)
  /-- The tick counter started over, this many times. -/
  | wrap (multiplier : UInt32)
  | reset
  | pixel (x y : UInt16) (on : Bool)
  /-- Changes of brightness in one column, at row `base + i` for every bit `i` of the mask. -/
  | group (x base : UInt16) (mask : UInt8) (on : Bool)
  | special (kind : SpecialKind) (data : UInt32)
  | composite (kind : CompositeKind) (step : CompositeStep)
  deriving DecidableEq, Repr

/-- What a device reads out of a unit. -/
structure Classified (σ : Type) where
  state : σ
  codes : List Code := []
  notices : List Notice := []
  /-- Whether the unit asks for the acquisition to be stopped. -/
  stops : Bool := false

/-- What a device makes of a step of a composite. -/
structure Composed (σ : Type) where
  state : σ
  outcome : CompositeOutcome
  notices : List Notice := []

/-- A family of devices: the constants of its format and the reading of its units. -/
structure Device where
  State : Type
  initial : State
  name : String
  unitWidth : Nat
  /-- Microseconds that one wrap marker stands for. -/
  wrapUnit : Int
  order : TimeOrder
  geometry : Geometry
  classify : State → List UInt8 → Classified State
  compose : State → CompositeKind → CompositeStep → Int → Composed State
  invalidate : State → State

/-- The clock of a device before its first unit. -/
def Device.clock (dev : Device) : Clock :=
  Clock.start dev.wrapUnit dev.order

end EventCamera
