import EventCamera.Device
import EventCamera.Wire.Field

/-! # The DVS128

Units of four bytes: an address word and a timestamp word, low bytes first. The two top bits of
the last byte mark wraps and resets; then the other bits mean nothing. -/

namespace EventCamera.Wire.Dvs128

def arraySize : Nat := 128

/-- The pixel of an address. The array is mounted upside down, and its polarity is inverted. -/
def pixel (address : Nat) : Code :=
  .pixel (.ofNat (arraySize - 1 - field address 1 7)) (.ofNat (arraySize - 1 - field address 8 7))
    (!flag address 0)

def codes : List UInt8 → List Code
  | addressLow :: addressHigh :: timeLow :: timeHigh :: _ =>
    let address := word addressLow addressHigh
    let time := word timeLow timeHigh
    if flag time 15 then [.wrap 1]
    else if flag time 14 then [.reset]
    else
      [.tick (.ofNat time),
        if flag address 15 then .special .externalInputRisingEdge 0 else pixel address]
  | _ => []

/-- Bytes of a unit. -/
def unitWidth : Nat := 4

/-- Microseconds between two wraps of the 14-bit tick counter. -/
def wrapUnit : Int := 0x4000

/-- The DVS128. Several of its events may share a time, and it has no composite events. -/
def device : Device where
  State := Unit
  initial := ()
  name := "DVS128"
  unitWidth := unitWidth
  wrapUnit := wrapUnit
  order := .nonDecreasing
  geometry := ⟨.ofNat arraySize, .ofNat arraySize⟩
  classify := fun state unit => { state, codes := codes unit }
  compose := fun state _ _ _ => { state, outcome := .ignored }
  invalidate := id

/-- The unit with an address, the low 14 bits of a time, and the two top bits of `flags`. -/
def encode (address time flags : Nat) : List UInt8 :=
  bytes address ++ bytes (field time 0 14 + field flags 6 2 <<< 14)

def address (x y : Nat) (on : Bool) : Nat :=
  (arraySize - 1 - y % arraySize) <<< 8 + 2 * (arraySize - 1 - x % arraySize) +
    if on then 0 else 1

def encodeWrap : List UInt8 := encode 0 0 0x80

def encodeReset : List UInt8 := encode 0 0 0x40

end EventCamera.Wire.Dvs128
