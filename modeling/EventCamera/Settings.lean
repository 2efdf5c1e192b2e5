import EventCamera.Buffer

/-! # Settings of an acquisition -/

namespace EventCamera

/-- Why settings cannot be used. -/
inductive SettingsError where
  | zeroQueueCapacity
  | invalidInterval (interval : Int)
  | zeroTransferSize
  | zeroCapacityLimit
  | unalignedTransferSize (size unitWidth : Nat)
  deriving DecidableEq, Repr

def SettingsError.message : SettingsError → String
  | .zeroQueueCapacity => "exchange queue capacity must be at least 1"
  | .invalidInterval interval =>
    s!"maximum container interval must be positive, got {interval}us"
  | .zeroTransferSize => "transfer buffer size must be at least 1 byte"
  | .zeroCapacityLimit => "buffer capacity limit must be at least 1 event"
  | .unalignedTransferSize size unitWidth =>
    s!"transfer buffer size {size} is not a multiple of the {unitWidth}-byte unit width"

/-- What an acquisition can be set to. -/
structure Settings where
  /-- A container is sealed once a buffer holds this many events; zero turns this off. -/
  maxEvents : Nat := 8192
  /-- A container is sealed once this many microseconds have passed. -/
  maxInterval : Int := 10000
  queueCapacity : Nat := 64
  /-- Whether taking the next container waits for one. -/
  blockingPop : Bool := false
  transferSize : Nat := 8192
  capacityLimit : Nat := defaultCapacityLimit
  /-- What the machine can spare for events. -/
  memory : Memory := {}
  deriving DecidableEq, Repr

namespace Settings

/-- Checks the settings on their own. The first fault is reported. -/
def validate (s : Settings) : Except SettingsError Unit :=
  if s.queueCapacity = 0 then .error .zeroQueueCapacity
  else if s.maxInterval ≤ 0 then .error (.invalidInterval s.maxInterval)
  else if s.transferSize = 0 then .error .zeroTransferSize
  else if s.capacityLimit = 0 then .error .zeroCapacityLimit
  else .ok ()

/-- Checks that a read can be filled with whole units of a device. -/
def validateUnitWidth (s : Settings) (unitWidth : Nat) : Except SettingsError Unit :=
  if unitWidth = 0 ∨ s.transferSize % unitWidth ≠ 0 then
    .error (.unalignedTransferSize s.transferSize unitWidth)
  else
    .ok ()

end Settings

end EventCamera
