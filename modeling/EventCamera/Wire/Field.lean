/-! # Bit fields of words -/

namespace EventCamera.Wire

/-- The word of two bytes, the low one first. -/
def word (low high : UInt8) : Nat :=
  low.toNat + 256 * high.toNat

/-- The bytes of a word, the low one first. -/
def bytes (word : Nat) : List UInt8 :=
  [UInt8.ofNat word, UInt8.ofNat (word / 256)]

/-- The `width` bits of a number from bit `low` upward. -/
def field (n low width : Nat) : Nat :=
  n >>> low % 1 <<< width

def flag (n index : Nat) : Bool :=
  field n index 1 = 1

end EventCamera.Wire
