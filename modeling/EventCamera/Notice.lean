import EventCamera.Buffer

/-! # Notices

What the pipeline reports while it works: each notice with its level, its wording and its
fields. -/

namespace EventCamera

/-- How much a notice matters. -/
inductive Level where
  | error
  | warn
  | info
  | debug
  deriving DecidableEq, Repr

def Level.label : Level → String
  | .error => "ERROR"
  | .warn => "WARN"
  | .info => "INFO"
  | .debug => "DEBUG"

/-- Something worth reporting. -/
inductive Notice where
  | timeWentBack (last current : Int)
  | containerCommitted (events : Nat)
  | containerDropped (events : Nat)
  | resetCommitted
  | resetAbandoned
  | partialUnit (length unitWidth kept : Nat)
  | growthFailed (cause : GrowthError)
  | epochChanged (epoch : Int)
  | resetReceived
  | specialReceived (kind : SpecialKind)
  | sampleDiscarded (count expected : Nat) (kind : EventKind)
  | pixelOutOfRange (x y : UInt16) (geometry : Geometry)
  | reservedSpecial
  | unknownSpecial (data : Nat)
  | columnOutOfRange (column : Nat) (width : UInt16)
  | rowGroupOutOfRange (group : Nat) (row : UInt16) (height : UInt16)
  | unknownMisc (code : Nat)
  | unknownUnit (code : Nat)
  | sampleOverrun (count : Nat)
  | noSensorEnabled
  | sampleStarted
  deriving DecidableEq, Repr

namespace Notice

def level : Notice → Level
  | timeWentBack .. | resetAbandoned | partialUnit .. | pixelOutOfRange ..
  | columnOutOfRange .. | rowGroupOutOfRange .. => .warn
  | growthFailed _ | reservedSpecial | unknownSpecial _ | unknownMisc _ | unknownUnit _
  | sampleOverrun _ | noSensorEnabled => .error
  | containerDropped _ | resetReceived | sampleDiscarded .. => .info
  | containerCommitted _ | resetCommitted | epochChanged _ | specialReceived _
  | sampleStarted => .debug

def message : Notice → String
  | timeWentBack .. => "Timestamps: non monotonic timestamp detected"
  | containerCommitted _ => "Committed event container"
  | containerDropped _ => "Dropped event container because exchange queue is full"
  | resetCommitted => "Committed timestamp reset container"
  | resetAbandoned =>
    "Acquisition stopped while waiting to commit timestamp reset, reset container lost"
  | partialUnit _ _ kept =>
    s!"Read length is not a multiple of the unit width, truncating to {kept} bytes"
  | growthFailed _ => "Failed to grow event buffer, abandoning transfer buffer"
  | epochChanged _ => "Timestamp big wrap detected"
  | resetReceived => "Timestamp reset event received"
  | specialReceived _ => "Special event received"
  | sampleDiscarded .. =>
    "Composite end: failed to validate sample count, discarding samples"
  | pixelOutOfRange .. => "DVS: address out of range, skipping event"
  | reservedSpecial => "Caught special reserved event"
  | unknownSpecial _ => "Caught special event that can't be handled"
  | columnOutOfRange .. => "DVS: X address out of range, due to USB communication issue"
  | rowGroupOutOfRange .. =>
    "DVS: group Y address out of range, due to USB communication issue"
  | unknownMisc _ => "Caught misc8 event that can't be handled"
  | unknownUnit _ => "Caught event that can't be handled"
  | sampleOverrun _ => "Got invalid IMU update sequence"
  | noSensorEnabled => "IMU scale config: no IMU sensors enabled"
  | sampleStarted => "IMU6 start event received"

def fields : Notice → List (String × String)
  | timeWentBack last current =>
    [("last", toString last), ("current", toString current),
      ("difference", toString (last - current))]
  | containerCommitted events | containerDropped events => [("events", toString events)]
  | partialUnit length unitWidth _ =>
    [("length", toString length), ("unit_width", toString unitWidth)]
  | growthFailed cause => [("error", cause.message)]
  | epochChanged epoch => [("overflow", toString epoch)]
  | specialReceived kind => [("kind", kind.label)]
  | sampleDiscarded count expected kind =>
    [("count", toString count), ("expected", toString expected), ("kind", kind.name)]
  | pixelOutOfRange x y geometry =>
    [("x", toString x.toNat), ("y", toString y.toNat),
      ("width", toString geometry.width.toNat), ("height", toString geometry.height.toNat)]
  | unknownSpecial data => [("data", toString data)]
  | columnOutOfRange column width =>
    [("column", toString column), ("width", toString width.toNat)]
  | rowGroupOutOfRange group row height =>
    [("group", toString group), ("row", toString row.toNat),
      ("height", toString height.toNat)]
  | unknownMisc code => [("misc_code", toString code)]
  | unknownUnit code => [("code", toString code)]
  | sampleOverrun count => [("count", toString count)]
  | resetCommitted | resetAbandoned | resetReceived | reservedSpecial | noSensorEnabled
  | sampleStarted => []

/-- A notice as it is listed: level, wording, then the device and the fields. -/
def render (device : String) (n : Notice) : List String :=
  n.level.label :: n.message ::
    (("device", device) :: n.fields).map fun (key, value) => key ++ "=" ++ value

end Notice

end EventCamera
