import EventCamera.Device
import EventCamera.Wire.Field

/-! # Inertial samples of the DVXplorer

A sample is sent byte by byte, two bytes for each value, high byte first. A configuration says
which sensors are on and how their values are scaled. The bytes are counted as if all sensors
sent theirs: the count jumps over the bytes of a sensor that is off. -/

namespace EventCamera.Wire.DvXplorer

/-- Bytes of a sample of all sensors. -/
def sampleBytes : Nat := 14

/-- Which sensors send their values. -/
structure Sensors where
  accelerometer : Bool := false
  gyroscope : Bool := false
  thermometer : Bool := false
  deriving DecidableEq, Repr

/-- Steps of the accelerometer per g, for its two-bit full-scale setting. -/
def accelScale (setting : Nat) : Float32 :=
  (65536 : Float32) / Float32.ofNat (4 <<< (setting % 4))

/-- Steps of the gyroscope per degree per second, for its three-bit full-scale setting. Settings
from four up have the smallest range. -/
def gyroScale (setting : Nat) : Float32 :=
  (65536 : Float32) / Float32.ofNat (250 <<< (4 - min (setting % 8) 4))

/-- What is remembered of the inertial sensors. -/
structure Imu where
  scratch : ImuScratch := .waiting
  sensors : Sensors := {}
  accelScale : Float32 := DvXplorer.accelScale 0
  gyroScale : Float32 := DvXplorer.gyroScale 0
  /-- The high byte of the value being sent. -/
  high : UInt8 := 0

namespace Imu

/-- Two bytes as a signed value, the high one first. -/
def value (high low : UInt8) : Float32 :=
  .ofInt (Int.bmod (word low high) 0x10000)

/-- Starts a sample. Which sensors are on is not known yet. -/
def start (m : Imu) : Imu :=
  { m with scratch := .opened, sensors := {} }

def store (m : Imu) (f : Imu6Event → Imu6Event) : Imu :=
  { m with scratch := { m.scratch with event := f m.scratch.event } }

def skip (m : Imu) (bytes : Nat) : Imu :=
  { m with scratch := m.scratch.advance bytes }

/-- Takes in a byte at the place that the count says, without counting it. The X and Y axes are
exchanged, for the way in which the sensor is mounted. -/
def place (m : Imu) (byte : UInt8) : Imu × List Notice :=
  let v := value m.high byte
  match m.scratch.count with
  | 0 | 2 | 4 | 6 | 8 | 10 | 12 => ({ m with high := byte }, [])
  | 1 => (m.store ({ · with accelY := v / m.accelScale }), [])
  | 3 => (m.store ({ · with accelX := v / m.accelScale }), [])
  | 5 =>
    let m := m.store ({ · with accelZ := v / m.accelScale })
    (if m.sensors.thermometer then m else m.skip (if m.sensors.gyroscope then 2 else 8), [])
  | 7 =>
    let m := m.store ({ · with temperature := v / 512 + 23 })
    (if m.sensors.gyroscope then m else m.skip 6, [])
  | 9 => (m.store ({ · with gyroY := v / m.gyroScale }), [])
  | 11 => (m.store ({ · with gyroX := v / m.gyroScale }), [])
  | 13 => (m.store ({ · with gyroZ := v / m.gyroScale }), [])
  | count => (m, [.sampleOverrun count])

def data (m : Imu) (byte : UInt8) : Imu × List Notice :=
  let (m, notices) := m.place byte
  (m.skip 1, notices)

def sensorsOf (config : Nat) : Sensors where
  accelerometer := flag config 7
  gyroscope := flag config 6
  thermometer := flag config 5

/-- The place of the first byte that is sent. -/
def firstByte (s : Sensors) : Nat :=
  if s.accelerometer then 0
  else if s.thermometer then 6
  else if s.gyroscope then 8
  else sampleBytes

/-- Applies a configuration, and moves the count to the first byte that is sent. -/
def configure (m : Imu) (config : Nat) : Imu × List Notice :=
  let sensors := sensorsOf config
  ({ m with
      accelScale := DvXplorer.accelScale (config >>> 3)
      gyroScale := DvXplorer.gyroScale config
      sensors
      scratch := { m.scratch with count := firstByte sensors } },
    if sensors = {} then [.noSensorEnabled] else [])

def invalidate (m : Imu) : Imu :=
  { m with scratch := .waiting }

/-- Applies a step of a sample at a device time. Its end marker leaves the sample open. -/
def apply (m : Imu) (step : CompositeStep) (time : Int) : Composed Imu :=
  match step, m.scratch.ignoring with
  | .start, _ => { state := m.start, outcome := .pending, notices := [.sampleStarted] }
  | _, true => { state := m, outcome := .ignored }
  | .data byte, false =>
    let (m, notices) := m.data byte
    { state := m, outcome := .pending, notices }
  | .config config, false =>
    let (m, notices) := m.configure config.toNat
    { state := m, outcome := .pending, notices }
  | .finish, false => { state := m, outcome := m.scratch.outcome sampleBytes time }
  | .sample _, false | .exposureStart, false | .exposureEnd, false =>
    { state := m, outcome := .ignored }

end Imu

end EventCamera.Wire.DvXplorer
