import EventCamera.Wire.Field

/-! # Writing units of the DVXplorer -/

namespace EventCamera.Wire.DvXplorer.Encode

/-- The unit with a three-bit code and twelve bits of data. -/
def unit (code data : Nat) : List UInt8 :=
  bytes (field code 0 3 <<< 12 + field data 0 12)

def tick (ticks : Nat) : List UInt8 :=
  bytes (0x8000 + field ticks 0 15)

def special (data : Nat) : List UInt8 :=
  unit 0 data

def reset : List UInt8 :=
  special 1

def column (x : Nat) (startOfFrame : Bool) : List UInt8 :=
  unit 1 (field x 0 10 + if startOfFrame then 0x800 else 0)

/-- The unit of two row addresses, each counted in groups of eight rows. -/
def groupRows (group1 group2 : Nat) : List UInt8 :=
  if group1 ≤ group2 then
    unit 4 (field group1 0 6 + field (group2 - group1) 0 5 <<< 6)
  else
    unit 4 (field group1 0 6 + field (group1 - group2) 0 5 <<< 6 + 0x800)

/-- The unit of the mask of the first or the second pixel group. -/
def group (first : Bool) (mask : Nat) (on : Bool) : List UInt8 :=
  unit (if first then 3 else 2) (field mask 0 8 + if on then 0 else 0x100)

def imuStart : List UInt8 :=
  special 5

def imuEnd : List UInt8 :=
  special 7

def imuByte (byte : Nat) : List UInt8 :=
  unit 5 (field byte 0 8)

/-- The unit that configures the inertial sensors: which are on, and their full-scale settings. -/
def imuConfig (sensors accel gyro : Nat) : List UInt8 :=
  unit 5 (3 <<< 8 + field sensors 0 3 <<< 5 + field accel 0 2 <<< 3 + field gyro 0 3)

def wrap (multiplier : Nat) : List UInt8 :=
  unit 7 multiplier

end EventCamera.Wire.DvXplorer.Encode
