import EventCamera.Device
import EventCamera.Wire.Field

/-! # Units of the DVXplorer

Units are 16-bit words, low byte first. A set top bit makes a word a 15-bit tick. Otherwise the
next three bits say what the low twelve bits mean. -/

namespace EventCamera.Wire.DvXplorer

/-- The pixel address that later units refer to. -/
structure Address where
  column : UInt16 := 0
  /-- The first row of each of the two pixel groups. -/
  row1 : UInt16 := 0
  row2 : UInt16 := 0
  deriving DecidableEq, Repr

/-- What a unit comes to: the address it leaves, its codes and its notices. -/
structure Reading where
  address : Address
  codes : List Code := []
  notices : List Notice := []

namespace Address

def special (a : Address) (data : Nat) : Reading :=
  match data with
  | 0 => { address := a, notices := [.reservedSpecial] }
  | 1 => { address := a, codes := [.reset] }
  | 2 => { address := a, codes := [.special .externalInputFallingEdge 0] }
  | 3 => { address := a, codes := [.special .externalInputRisingEdge 0] }
  | 4 => { address := a, codes := [.special .externalInputPulse 0] }
  | 5 => { address := a, codes := [.composite .imu6 .start] }
  | 7 => { address := a, codes := [.composite .imu6 .finish] }
  | 16 => { address := a, codes := [.special .externalGeneratorFallingEdge 0] }
  | 17 => { address := a, codes := [.special .externalGeneratorRisingEdge 0] }
  | data => { address := a, notices := [.unknownSpecial data] }

/-- A unit with a column address; bit 11 starts a readout of the array. A column outside of the
array is not taken over. -/
def moveColumn (g : Geometry) (a : Address) (data : Nat) : Reading :=
  let column := field data 0 10
  let codes : List Code := if flag data 11 then [.special .eventReadoutStart 0] else []
  if column < g.width.toNat then
    { address := { a with column := .ofNat column }, codes }
  else
    { address := a, codes, notices := [.columnOutOfRange column g.width] }

/-- The first rows of the two pixel groups, eight rows to a group. The second group is given by
its distance from the first, which bit 11 makes negative; rows are kept to 16 bits. -/
def rowsOf (data : Nat) : UInt16 × UInt16 :=
  let group1 : UInt16 := .ofNat (field data 0 6)
  let offset : UInt16 := .ofNat (field data 6 5)
  let group2 := if flag data 11 then group1 - offset else group1 + offset
  (group1 * 8, group2 * 8)

/-- A unit with row addresses. Both rows have to be in the array. -/
def moveRows (g : Geometry) (a : Address) (data : Nat) : Reading :=
  let (row1, row2) := rowsOf data
  if g.height ≤ row1 then
    { address := a, notices := [.rowGroupOutOfRange 1 row1 g.height] }
  else if g.height ≤ row2 then
    { address := a, notices := [.rowGroupOutOfRange 2 row2 g.height] }
  else
    { address := { a with row1, row2 } }

/-- A unit with the mask of a pixel group, whose pixels got darker if bit 8 is set. -/
def pixelGroup (a : Address) (base : UInt16) (data : Nat) : Reading :=
  { address := a, codes := [.group a.column base (.ofNat (field data 0 8)) (!flag data 8)] }

/-- A unit with a byte of an inertial sample, or with a configuration of the sensors. -/
def misc (a : Address) (data : Nat) : Reading :=
  match field data 8 4 with
  | 0 => { address := a, codes := [.composite .imu6 (.data (.ofNat (field data 0 8)))] }
  | 3 => { address := a, codes := [.composite .imu6 (.config (.ofNat data))] }
  | code => { address := a, notices := [.unknownMisc code] }

def read (g : Geometry) (a : Address) (unit : Nat) : Reading :=
  if flag unit 15 then
    { address := a, codes := [.tick (.ofNat (field unit 0 15))] }
  else
    let data := field unit 0 12
    match field unit 12 3 with
    | 0 => a.special data
    | 1 => a.moveColumn g data
    | 2 => a.pixelGroup a.row2 data
    | 3 => a.pixelGroup a.row1 data
    | 4 => a.moveRows g data
    | 5 => a.misc data
    | 7 => { address := a, codes := [.wrap (.ofNat data)] }
    | code => { address := a, notices := [.unknownUnit code] }

end Address

end EventCamera.Wire.DvXplorer
