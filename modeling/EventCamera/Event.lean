import EventCamera.Time

/-! # Events

The four kinds of events, the record of each kind, and the pixel array they refer to. -/

namespace EventCamera

/-- What a special event marks. -/
inductive SpecialKind where
  | timestampWrap
  | timestampReset
  | externalInputRisingEdge
  | externalInputFallingEdge
  | externalInputPulse
  | eventReadoutStart
  | externalGeneratorRisingEdge
  | externalGeneratorFallingEdge
  deriving DecidableEq, Repr, Inhabited

namespace SpecialKind

/-- Every special kind, at the position of its number. -/
def all : List SpecialKind :=
  [timestampWrap, timestampReset, externalInputRisingEdge, externalInputFallingEdge,
    externalInputPulse, eventReadoutStart, externalGeneratorRisingEdge,
    externalGeneratorFallingEdge]

def code : SpecialKind → Nat
  | timestampWrap => 0
  | timestampReset => 1
  | externalInputRisingEdge => 2
  | externalInputFallingEdge => 3
  | externalInputPulse => 4
  | eventReadoutStart => 5
  | externalGeneratorRisingEdge => 6
  | externalGeneratorFallingEdge => 7

def ofCode? (n : Nat) : Option SpecialKind :=
  all[n]?

theorem ofCode?_code (k : SpecialKind) : ofCode? k.code = some k := by
  cases k <;> rfl

def label : SpecialKind → String
  | timestampWrap => "TimestampWrap"
  | timestampReset => "TimestampReset"
  | externalInputRisingEdge => "ExternalInputRisingEdge"
  | externalInputFallingEdge => "ExternalInputFallingEdge"
  | externalInputPulse => "ExternalInputPulse"
  | eventReadoutStart => "EventReadoutStart"
  | externalGeneratorRisingEdge => "ExternalGeneratorRisingEdge"
  | externalGeneratorFallingEdge => "ExternalGeneratorFallingEdge"

end SpecialKind

/-- A control event, with a payload that is zero when unused. -/
structure SpecialEvent where
  kind : SpecialKind
  data : UInt32
  time : Int
  deriving DecidableEq, Repr

namespace SpecialEvent

/-- The marker of a timestamp reset. It carries the largest time, to sort behind what came
before it. -/
def reset : SpecialEvent := ⟨.timestampReset, 0, maxTime⟩

/-- The marker of a change of epoch, stamped with the last time of the old epoch. -/
def wrap : SpecialEvent := ⟨.timestampWrap, 0, maxTime⟩

end SpecialEvent

/-- A change of brightness at one pixel; `on` when it got brighter. -/
structure PolarityEvent where
  x : UInt16
  y : UInt16
  on : Bool
  time : Int
  deriving DecidableEq, Repr

/-- An image. Four times bracket its readout and its exposure; pixels are stored row by row. -/
structure FrameEvent where
  width : UInt16 := 0
  height : UInt16 := 0
  pixels : Array UInt16 := #[]
  frameStart : Int := 0
  exposureStart : Int := 0
  exposureEnd : Int := 0
  frameEnd : Int := 0
  deriving DecidableEq, Repr, Inhabited

namespace FrameEvent

def exposure (f : FrameEvent) : Int :=
  f.exposureEnd - f.exposureStart

/-- The time of an image is the middle of its exposure, halves cut off toward its start. -/
def time (f : FrameEvent) : Int :=
  f.exposureStart + f.exposure.tdiv 2

/-- The pixel in column `x` and row `y`, if the image has one there. -/
def pixel? (f : FrameEvent) (x y : UInt16) : Option UInt16 :=
  if x < f.width ∧ y < f.height then
    f.pixels[y.toNat * f.width.toNat + x.toNat]?
  else
    none

end FrameEvent

/-- A sample of the inertial sensor: acceleration in g, angular velocity in degrees per second,
temperature in degrees Celsius. -/
structure Imu6Event where
  accelX : Float32 := 0
  accelY : Float32 := 0
  accelZ : Float32 := 0
  gyroX : Float32 := 0
  gyroY : Float32 := 0
  gyroZ : Float32 := 0
  temperature : Float32 := 0
  time : Int := 0
  deriving DecidableEq, Inhabited

/-- The kinds of events that are buffered apart. -/
inductive EventKind where
  | special
  | polarity
  | frame
  | imu6
  deriving DecidableEq, Repr

namespace EventKind

/-- The kinds in the order in which a container lists them. -/
def all : List EventKind := [special, polarity, frame, imu6]

theorem mem_all (k : EventKind) : k ∈ all := by
  cases k <;> decide

instance {p : EventKind → Prop} [DecidablePred p] : Decidable (∀ k, p k) :=
  decidable_of_iff (∀ k ∈ all, p k) ⟨fun h k => h k k.mem_all, fun h k _ => h k⟩

/-- The record of an event of this kind. -/
abbrev Record : EventKind → Type
  | special => SpecialEvent
  | polarity => PolarityEvent
  | frame => FrameEvent
  | imu6 => Imu6Event

def time : (k : EventKind) → k.Record → Int
  | special, e => SpecialEvent.time e
  | polarity, e => PolarityEvent.time e
  | frame, e => FrameEvent.time e
  | imu6, e => Imu6Event.time e

def defaultCapacity : EventKind → Nat
  | special => 128
  | polarity => 8192
  | frame => 4
  | imu6 => 64

def recordSize : EventKind → Nat
  | special => 12
  | polarity => 12
  | frame => 48
  | imu6 => 32

def name : EventKind → String
  | special => "special"
  | polarity => "polarity"
  | frame => "frame"
  | imu6 => "imu6"

def label : EventKind → String
  | special => "Special"
  | polarity => "Polarity"
  | frame => "Frame"
  | imu6 => "Imu6"

end EventKind

/-- The size of a pixel array. -/
structure Geometry where
  width : UInt16
  height : UInt16
  deriving DecidableEq, Repr

/-- Whether the array has a pixel in column `x` and row `y`. -/
def Geometry.contains (g : Geometry) (x y : UInt16) : Bool :=
  x < g.width && y < g.height

end EventCamera
