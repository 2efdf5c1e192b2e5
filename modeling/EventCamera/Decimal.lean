/-! # Shortest decimals

A number of a binary format is identified by any decimal that lies nearer to it than to every
other number of the format. `Binary.shortest` finds one with as few digits as possible, and among
those the nearest one. All comparisons are between whole numbers. -/

namespace EventCamera

/-- The positive number `mantissa * 2 ^ exponent` of a binary format. -/
structure Binary where
  mantissa : Nat
  exponent : Int
  /-- Whether the next number below is only half as far away as the next one above. -/
  crowded : Bool
  deriving DecidableEq, Repr

/-- The number `coefficient * 10 ^ exponent`. -/
structure Decimal where
  coefficient : Nat
  exponent : Int
  deriving DecidableEq, Repr

namespace Binary

/-- Whether a point lies nearer to a number than to every other one of the format. Points are
multiples of `step`, and a quarter of the last binary place measures `unit`. A point in the middle
of two numbers belongs to the one with the even mantissa. -/
def attracts (b : Binary) (unit point : Nat) : Bool :=
  let lower := (4 * b.mantissa - if b.crowded then 1 else 2) * unit
  let upper := (4 * b.mantissa + 2) * unit
  if b.mantissa % 2 = 0 then
    lower ≤ point && point ≤ upper
  else
    lower < point && point < upper

/-- The coefficient of the multiple of `10 ^ exponent` that is nearest to a number, if it or its
neighbour on the other side of the number identifies it. In the middle of two multiples the
greater one is taken. -/
def onGrid? (b : Binary) (exponent : Int) : Option Nat :=
  let place := b.exponent - 2
  let step := Nat.pow 10 exponent.toNat <<< (-place).toNat
  let unit := Nat.pow 10 (-exponent).toNat <<< place.toNat
  let value := 4 * b.mantissa * unit
  let below := value / step
  match b.attracts unit (below * step), b.attracts unit ((below + 1) * step) with
  | true, true => some (if 2 * (value - below * step) < step then below else below + 1)
  | true, false => some below
  | false, true => some (below + 1)
  | false, false => none

/-- Tries grids one finer than the other, a number of them at most. -/
def search (b : Binary) : (grids : Nat) → (exponent : Int) → Decimal
  | 0, exponent => ⟨0, exponent⟩
  | grids + 1, exponent =>
    match b.onGrid? exponent with
    | some coefficient => ⟨coefficient, exponent⟩
    | none => search b grids (exponent - 1)

/-- A power of ten above twice the number. Its exponent is found from that of two: `1233 / 4096` is
the decimal logarithm of two, rounded down. -/
def ceiling (b : Binary) : Int :=
  (b.mantissa.log2 + b.exponent + 2) * 1233 / 4096 + 2

/-- The shortest decimal that identifies a number with up to 24 binary digits: for those, nine
decimal digits are enough. -/
def shortest (b : Binary) : Decimal :=
  b.search 16 b.ceiling

end Binary

end EventCamera
