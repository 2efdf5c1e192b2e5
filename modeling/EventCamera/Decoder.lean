import EventCamera.Collector
import EventCamera.Device

/-! # Decoding a stream of units

The units of a device are read into codes, and the codes are applied to the collector: they move
its clock and add events. After each unit the batch is sealed if there is a reason to. -/

namespace EventCamera

/-- Why a stream could not be decoded. -/
inductive DecodeError where
  | allocation (cause : GrowthError)
  deriving DecidableEq, Repr

def DecodeError.message : DecodeError → String
  | .allocation cause => "event buffer allocation failed: " ++ cause.message

/-- A device and what was collected from it. -/
structure Decoder (dev : Device) where
  device : dev.State
  collector : Collector

/-- What applying codes came to. A failure keeps what was applied before it. -/
structure Applied (dev : Device) where
  decoder : Decoder dev
  notices : List Notice := []
  /-- What the codes force. -/
  result : Except GrowthError (Option Forced) := .ok none

namespace Decoder

variable {dev : Device}

def start (dev : Device) (settings : Settings) : Except GrowthError (Decoder dev) := do
  return { device := dev.initial, collector := ← Collector.start settings dev.clock }

def clock (d : Decoder dev) : Clock :=
  d.collector.clock

/-- The number of events that wait to be sealed. -/
def pending (d : Decoder dev) : Nat :=
  d.collector.pending

def withCollector (d : Decoder dev) (f : Collector → Collector) : Decoder dev :=
  { d with collector := f d.collector }

def withClock (d : Decoder dev) (f : Clock → Clock) : Decoder dev :=
  d.withCollector (·.withClock f)

/-- Sets the deadline one interval ahead, unless there is one. -/
def arm (d : Decoder dev) : Decoder dev :=
  d.withClock (·.arm d.collector.interval)

def push (d : Decoder dev) (k : EventKind) (event : k.Record) (notices : List Notice)
    (forced : Option Forced) : Applied dev :=
  match d.collector.capacityFor k 1 with
  | .ok capacity =>
    { decoder := d.withCollector (·.append k capacity event), notices, result := .ok forced }
  | .error e => { decoder := d, notices, result := .error e }

/-- Adds a change of brightness at the current time, if its pixel is in the array. -/
def pushPixel (d : Decoder dev) (x y : UInt16) (on : Bool) : Applied dev :=
  if dev.geometry.contains x y then
    d.push .polarity ⟨x, y, on, d.clock.current⟩ [] none
  else
    { decoder := d, notices := [.pixelOutOfRange x y dev.geometry] }

/-- Applies one thing after the other, up to the first failure. -/
def Applied.andThen (a : Applied dev) (f : Decoder dev → Applied dev) : Applied dev :=
  match a.result with
  | .error _ => a
  | .ok forced =>
    let b := f a.decoder
    { b with
      notices := a.notices ++ b.notices
      result := b.result.map (Forced.merge forced) }

/-- Applies one thing for each entry of a list, up to the first failure. -/
def forEach {α : Type} (f : α → Decoder dev → Applied dev) : List α → Decoder dev → Applied dev
  | [], d => { decoder := d }
  | a :: rest, d => Applied.andThen (f a d) (forEach f rest)

/-- The row that lies `offset` rows above a base row. There is no row beyond the last 16-bit
number. -/
def rowAbove (base : UInt16) (offset : Nat) : UInt16 :=
  .ofNat (min (base.toNat + offset) 0xffff)

/-- The rows of a pixel group, by the bits of its mask. -/
def rowsOf (base : UInt16) (mask : UInt8) : List UInt16 :=
  ((List.range 8).filter mask.toNat.testBit).map (rowAbove base)

/-- Adds the changes of a pixel group, after room was made for a whole group. -/
def pushGroup (d : Decoder dev) (x base : UInt16) (mask : UInt8) (on : Bool) : Applied dev :=
  match d.collector.capacityFor .polarity 8 with
  | .ok capacity =>
    forEach (fun y d => d.pushPixel x y on) (rowsOf base mask)
      (d.withCollector (·.withRoom .polarity capacity))
  | .error e => { decoder := d, result := .error e }

/-- Applies a step of a composite, and adds the event that it completes. -/
def applyComposite (d : Decoder dev) (kind : CompositeKind) (step : CompositeStep) : Applied dev :=
  let composed := dev.compose d.device kind step d.clock.current
  let d := { d with device := composed.state }
  match composed.outcome with
  | .complete event => d.push event.kind event.record composed.notices none
  | .mismatch count expected =>
    { decoder := d,
      notices := composed.notices ++ [.sampleDiscarded count expected kind.eventKind] }
  | .pending | .ignored => { decoder := d, notices := composed.notices }

def apply (code : Code) (d : Decoder dev) : Applied dev :=
  match code with
  | .tick ticks =>
    { decoder := (d.withClock (·.tick ticks)).arm, notices := d.clock.notices (.tick ticks) }
  | .wrap multiplier =>
    let moved := d.withClock (·.wrap multiplier)
    if d.clock.endsEpoch multiplier then
      moved.push .special SpecialEvent.wrap [.epochChanged moved.clock.epoch] (some .epochEnd)
    else
      { decoder := moved.arm, notices := d.clock.notices (.wrap multiplier) }
  | .reset =>
    { decoder := (d.withClock Clock.reset).arm
      notices := [.resetReceived]
      result := .ok (some .reset) }
  | .pixel x y on => d.pushPixel x y on
  | .group x base mask on => d.pushGroup x base mask on
  | .special kind data =>
    d.push .special ⟨kind, data, d.clock.current⟩ [.specialReceived kind] none
  | .composite kind step => d.applyComposite kind step

def invalidate (d : Decoder dev) : Decoder dev :=
  { d with device := dev.invalidate d.device }

/-- Seals the batch after codes were applied, if there is a reason to. After a forced sealing no
composite goes on. The container of a reset is made last, and may fail to when the rest is done. -/
def conclude (a : Applied dev) : Producer (Decoder dev × Except GrowthError Outcome) :=
  match a.result.bind fun forced => (a.decoder.collector.settle forced).map (forced, ·) with
  | .error e => return (a.decoder, .error e)
  | .ok (forced, sealing?, collector) => do
    let (outcome, collector) ← collector.handOn sealing?
    let d := { a.decoder with collector }
    match sealing?.bind Sealing.fault? with
    | some e => return (d, .error e)
    | none => return (if forced.isSome then d.invalidate else d, .ok outcome)

/-- Decodes a unit: reads it, applies its codes, and seals the batch if there is a reason to. -/
def decodeUnit (d : Decoder dev) (unit : List UInt8) :
    Producer (Decoder dev × Except GrowthError Outcome) := do
  let seen := dev.classify d.device unit
  Producer.reportAll seen.notices
  if seen.stops then
    Producer.perform .stop
  let applied := forEach apply seen.codes { d with device := seen.state }
  Producer.reportAll applied.notices
  conclude applied

/-- The whole units of a stream. A width of zero is taken as one byte. -/
def units (width : Nat) (bytes : List UInt8) : List (List UInt8) :=
  let unit := bytes.take (max width 1)
  if _ : unit.length = max width 1 then
    unit :: units width (bytes.drop (max width 1))
  else
    []
termination_by bytes.length
decreasing_by
  have : unit.length ≤ bytes.length := List.length_take_le' ..
  simp only [List.length_drop]
  omega

theorem units_max (width : Nat) (bytes : List UInt8) :
    units (max width 1) bytes = units width bytes := by
  fun_induction units width bytes with
  | case1 bytes unit h ih =>
    rw [units]
    simp only [Nat.max_assoc, Nat.max_self]
    rw [dif_pos h, ih]
  | case2 bytes unit h =>
    rw [units]
    simp only [Nat.max_assoc, Nat.max_self]
    rw [dif_neg h]

/-- Takes a state through units, up to the first failure, or up to a reset that had to be
abandoned. -/
def overUnits {σ : Type} (step : σ → List UInt8 → Producer (σ × Except GrowthError Outcome)) :
    List (List UInt8) → σ → Producer (σ × Except GrowthError Unit)
  | [], s => return (s, .ok ())
  | unit :: rest, s => do
    let (s, result) ← step s unit
    match result with
    | .error e => return (s, .error e)
    | .ok .resetAbandoned => return (s, .ok ())
    | .ok _ => overUnits step rest s

/-- Takes a state through units, and reports a failure. -/
def overWhole {σ : Type} (step : σ → List UInt8 → Producer (σ × Except GrowthError Outcome))
    (s : σ) (units : List (List UInt8)) : Producer (σ × Except DecodeError Unit) := do
  let (s, result) ← overUnits step units s
  match result with
  | .ok () => return (s, .ok ())
  | .error e =>
    Producer.perform (.report (.growthFailed e))
    return (s, .error (.allocation e))

/-- Takes a state through the units of one read, if the acquisition is still wanted. Bytes that do
not fill a unit are dropped. -/
def overRead {σ : Type} (width : Nat)
    (step : σ → List UInt8 → Producer (σ × Except GrowthError Outcome)) (s : σ)
    (bytes : List UInt8) : Producer (σ × Except DecodeError Unit) := do
  if ← Producer.perform .isRunning then
    let length := bytes.length
    if length % width ≠ 0 then
      Producer.perform (.report (.partialUnit length width (length - length % width)))
    overWhole step s (units width bytes)
  else
    return (s, .ok ())

def decode (d : Decoder dev) (bytes : List UInt8) :
    Producer (Decoder dev × Except DecodeError Unit) :=
  overRead (max dev.unitWidth 1) decodeUnit d bytes

/-- Seals what has been collected, whether there is a reason to or not. -/
def flush (d : Decoder dev) : Producer (Decoder dev × Except DecodeError Outcome) := do
  if d.pending = 0 then
    return (d, .ok .empty)
  match d.collector.commit none with
  | .error e => return (d, .error (.allocation e))
  | .ok publishing =>
    let (outcome, collector) ← publishing
    return ({ d with collector }, .ok outcome)

end Decoder

end EventCamera
