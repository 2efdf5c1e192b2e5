/-! # Device time

An event carries a time in microseconds below `2 ^ 31`. The *epoch* counts how often that time
ran over. Both together give the full, 64-bit time. -/

namespace EventCamera

/-- The largest time an event can carry. -/
def maxTime : Int := 0x7fffffff

/-- Microseconds after which the time of an event starts over. -/
def epochLength : Int := 0x80000000

/-- An epoch and a time as one signed 64-bit number: the epoch is shifted left by 31 bits, and the
32 bits of the time are put over it. A time with its top bit set thereby falls on the lowest bit
of the epoch. -/
def fullTime (epoch time : Int) : Int :=
  Int.bmod
    (((epoch * epochLength % 0x10000000000000000).toNat ||| (time % 0x100000000).toNat : Nat) : Int)
    0x10000000000000000

/-- Within the range of event times the two parts do not overlap. -/
theorem fullTime_eq {epoch time : Int} (he : -0x100000000 ≤ epoch) (he' : epoch < 0x100000000)
    (ht : 0 ≤ time) (ht' : time ≤ maxTime) :
    fullTime epoch time = epoch * epochLength + time := by
  obtain ⟨t, rfl⟩ := Int.eq_ofNat_of_zero_le ht
  have hb : t < 2 ^ 31 := by simp only [maxTime] at ht'; omega
  have h1 : (epoch * epochLength % 0x10000000000000000).toNat =
      (epoch % 0x200000000).toNat <<< 31 := by
    rw [Nat.shiftLeft_eq]
    simp only [epochLength]
    omega
  have h2 : ((t : Int) % 0x100000000).toNat = t := by omega
  -- a negative epoch is shifted as the number of 64 bits that stands for it
  have hsum : (((epoch % 0x200000000).toNat * 2 ^ 31 + t : Nat) : Int) =
      epoch * epochLength + t + if epoch < 0 then 0x10000000000000000 else 0 := by
    simp only [epochLength]
    split <;> omega
  have hbounds : Int.bmod (epoch * epochLength + t) 0x10000000000000000 =
      epoch * epochLength + t := by
    simp only [epochLength]
    rw [Int.bmod_eq_of_le] <;> omega
  unfold fullTime
  rw [h1, h2, ← Nat.shiftLeft_add_eq_or_of_lt hb, Nat.shiftLeft_eq, hsum]
  split
  · exact (Int.add_bmod_right ..).trans hbounds
  · rwa [Int.add_zero]

end EventCamera
