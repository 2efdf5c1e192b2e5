import EventCamera.Decimal

/-! # Texts in fragments

A text is handed to a writer in fragments, and a writer never splits a fragment. Numbers are
written positionally, without an exponent; sign, point, zeros and digits are fragments apart. -/

namespace EventCamera

/-- A text, cut up. -/
abbrev Fragments : Type := List String

namespace Fragments

def text (fragments : Fragments) : String :=
  String.join fragments

def ofNat (n : Nat) : Fragments :=
  [Nat.repr n]

def signed (negative : Bool) (fragments : Fragments) : Fragments :=
  if negative then "-" :: fragments else fragments

def ofInt (i : Int) : Fragments :=
  signed (i < 0) (ofNat i.natAbs)

/-- Zeros that fill up places, if there are any. -/
def zeros (count : Nat) : Fragments :=
  if count = 0 then [] else [.ofList (.replicate count '0')]

def ofDecimal (d : Decimal) : Fragments :=
  let digits := Nat.toDigits 10 d.coefficient
  let point := digits.length + d.exponent
  if point ≤ 0 then
    "0." :: zeros (-point).toNat ++ [.ofList digits]
  else if d.exponent < 0 then
    [.ofList (digits.take point.toNat), ".", .ofList (digits.drop point.toNat)]
  else
    .ofList digits :: zeros d.exponent.toNat

/-- A number of the binary format with 8 bits of exponent and 23 bits of fraction, in the fewest
digits that identify it. A zero keeps its sign. -/
def ofFloat32 (x : Float32) : Fragments :=
  let bits := x.toBits.toNat
  let negative := bits.testBit 31
  let biased : Nat := bits >>> 23 % 0x100
  let fraction := bits % 0x800000
  if biased = 255 then
    if fraction = 0 then signed negative ["inf"] else ["NaN"]
  else if biased = 0 then
    if fraction = 0 then signed negative ["0"]
    else signed negative (ofDecimal (Binary.shortest ⟨fraction, -149, false⟩))
  else
    let crowded := fraction = 0 ∧ 1 < biased
    let mantissa := 0x800000 + fraction
    signed negative (ofDecimal (Binary.shortest ⟨mantissa, (biased : Int) - 150, crowded⟩))

end Fragments

end EventCamera
