import EventCamera.Acquisition

/-! # Cutting a stream into units

Units may be cut off a stream piece by piece, as long as every piece holds whole units. -/

namespace EventCamera

namespace Decoder

variable {width : Nat}

theorem units_of_lt {bytes : List UInt8} (h : bytes.length < max width 1) :
    units width bytes = [] := by
  rw [units, dif_neg]
  rw [List.length_take]
  omega

theorem units_of_length {unit : List UInt8} (h : unit.length = max width 1) :
    units width unit = [unit] := by
  have hwhole : unit.take (max width 1) = unit := List.take_of_length_le (Nat.le_of_eq h)
  have hrest : unit.drop (max width 1) = [] := List.drop_of_length_le (Nat.le_of_eq h)
  have hnone : units width [] = [] := units_of_lt (Nat.lt_of_lt_of_le Nat.one_pos (Nat.le_max_right ..))
  rw [units, dif_pos (hwhole.symm ▸ h), hwhole, hrest, hnone]

theorem units_append {before : List UInt8} (h : max width 1 ∣ before.length)
    (after : List UInt8) :
    units width (before ++ after) = units width before ++ units width after := by
  fun_induction units width before with
  | case1 before unit hunit ih =>
    have hle : max width 1 ≤ before.length := by
      rw [← hunit]
      exact List.length_take_le' ..
    have htake : (before ++ after).take (max width 1) = unit := List.take_append_of_le_length hle
    have hdvd : max width 1 ∣ (before.drop (max width 1)).length := by
      rw [List.length_drop]
      exact Nat.dvd_sub h (Nat.dvd_refl _)
    rw [units, dif_pos (htake ▸ hunit), htake, List.drop_append_of_le_length hle, ih hdvd]
    rfl
  | case2 before unit hunit =>
    have hshort : before.length < max width 1 := by
      rw [List.length_take] at hunit
      omega
    rw [List.length_eq_zero_iff.1 (Nat.eq_zero_of_dvd_of_lt h hshort)]
    rfl

theorem units_flatten {pieces : List (List UInt8)}
    (h : ∀ unit ∈ pieces, unit.length = max width 1) : units width pieces.flatten = pieces := by
  induction pieces with
  | nil => exact units_of_lt (Nat.lt_of_lt_of_le Nat.one_pos (Nat.le_max_right ..))
  | cons unit pieces ih =>
    obtain ⟨hfirst, hrest⟩ := List.forall_mem_cons.1 h
    rw [List.flatten_cons, units_append (hfirst ▸ Nat.dvd_refl _), ih hrest,
      units_of_length hfirst]
    rfl

/-- Whole units make up the stream that they were cut off. -/
theorem flatten_units {bytes : List UInt8} (h : max width 1 ∣ bytes.length) :
    (units width bytes).flatten = bytes := by
  fun_induction units width bytes with
  | case1 bytes unit hunit ih =>
    have hdvd : max width 1 ∣ (bytes.drop (max width 1)).length := by
      rw [List.length_drop]
      exact Nat.dvd_sub h (Nat.dvd_refl _)
    rw [List.flatten_cons, ih hdvd]
    exact List.take_append_drop ..
  | case2 bytes unit hunit =>
    have hshort : bytes.length < max width 1 := by
      rw [List.length_take] at hunit
      omega
    rw [List.length_eq_zero_iff.1 (Nat.eq_zero_of_dvd_of_lt h hshort)]
    rfl

end Decoder

/-! ## Whole units -/

section PartUnits

variable {width : Nat} (hwidth : 0 < width) (bytes : List UInt8)

theorem partUnits_fst (width : Nat) (bytes : List UInt8) :
    (partUnits width bytes).1 = bytes.take (bytes.length - bytes.length % width) := by
  rw [partUnits, List.splitAt_eq]

theorem partUnits_append_snd {before : List UInt8} (h : width ∣ before.length)
    (after : List UInt8) : (partUnits width (before ++ after)).2 = (partUnits width after).2 := by
  obtain ⟨q, hq⟩ := h
  have hle := Nat.mod_le after.length width
  simp only [partUnits, List.splitAt_eq]
  rw [List.length_append, hq, Nat.mul_add_mod, Nat.add_sub_assoc hle, ← hq,
    List.drop_length_add_append]

theorem dvd_length_partUnits (width : Nat) (bytes : List UInt8) :
    width ∣ (partUnits width bytes).1.length := by
  rw [partUnits_fst, List.length_take, Nat.min_eq_left (Nat.sub_le ..)]
  exact Nat.dvd_sub_mod _

/-- The bytes of a stream that fill no unit are found among what its first bytes left and the
rest. -/
theorem partUnits_snd_append (width : Nat) (bytes later : List UInt8) :
    (partUnits width (bytes ++ later)).2 =
      (partUnits width ((partUnits width bytes).2 ++ later)).2 := by
  have h := partUnits_append_snd (dvd_length_partUnits width bytes)
    ((partUnits width bytes).2 ++ later)
  rwa [← List.append_assoc, partUnits_append] at h

include hwidth

theorem length_partUnits_lt : (partUnits width bytes).2.length < width := by
  rw [partUnits, List.splitAt_eq, List.length_drop]
  have := Nat.mod_lt bytes.length hwidth
  have := Nat.mod_le bytes.length width
  omega

/-- The units of a stream are those among its first bytes, and then those that the rest
completes. -/
theorem units_partUnits_append (later : List UInt8) :
    Decoder.units width (bytes ++ later) =
      Decoder.units width (partUnits width bytes).1 ++
        Decoder.units width ((partUnits width bytes).2 ++ later) := by
  have hdvd : max width 1 ∣ (partUnits width bytes).1.length := by
    rw [Nat.max_eq_left hwidth]
    exact dvd_length_partUnits width bytes
  rw [← Decoder.units_append hdvd, ← List.append_assoc, partUnits_append]

theorem units_partUnits : Decoder.units width (partUnits width bytes).1 =
    Decoder.units width bytes := by
  have hrest : Decoder.units width ((partUnits width bytes).2 ++ []) = [] := by
    refine Decoder.units_of_lt ?_
    rw [List.append_nil, Nat.max_eq_left hwidth]
    exact length_partUnits_lt hwidth bytes
  have happend := units_partUnits_append hwidth bytes []
  rw [hrest, List.append_nil, List.append_nil] at happend
  exact happend.symm

end PartUnits

end EventCamera
