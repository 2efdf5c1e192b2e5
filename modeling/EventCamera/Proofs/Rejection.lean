import EventCamera.Proofs.Inertial
import EventCamera.Proofs.Transparency

/-! # Units that a DVXplorer rejects

Five kinds of units mean nothing to a DVXplorer, or point out of its array. It makes nothing of them. -/

namespace EventCamera

namespace Wire.DvXplorer

/-- Whether a unit is rejected, by its code and its data: special data without a meaning, a column out
of the array without the start of a readout, rows out of the array, a byte of an unknown kind, and the
code that the format leaves open. -/
def isRejected (g : Geometry) : List UInt8 → Bool
  | low :: high :: _ =>
    let data := word low high % 2 ^ 12
    match word low high / 2 ^ 12 with
    | 0 => !([1, 2, 3, 4, 5, 7, 16, 17].contains data)
    | 1 => data < 2 ^ 11 && g.width.toNat ≤ data % 2 ^ 10
    | 4 => g.height ≤ (Address.rowsOf data).1 || g.height ≤ (Address.rowsOf data).2
    | 5 => data / 2 ^ 8 != 0 && data / 2 ^ 8 != 3
    | 6 => true
    | _ => false
  | _ => false

namespace Address

structure Rejects (a : Address) (r : Reading) : Prop where
  address_eq : r.address = a
  codes_eq : r.codes = []
  isRejection : ∀ notice ∈ r.notices, notice.isRejection

variable {a : Address} {g : Geometry} {data : Nat}

theorem Rejects.single {notice : Notice} (h : notice.isRejection) :
    a.Rejects { address := a, notices := [notice] } :=
  ⟨rfl, rfl, List.forall_mem_singleton.2 h⟩

theorem rejects_special (h : data ∉ [1, 2, 3, 4, 5, 7, 16, 17]) : a.Rejects (a.special data) := by
  unfold special
  split
  case h_1 | h_10 => exact .single rfl
  all_goals simp at h

theorem rejects_moveColumn (hstart : data < 2 ^ 11) (hout : g.width.toNat ≤ data % 2 ^ 10) :
    a.Rejects (a.moveColumn g data) := by
  have hflag : flag data 11 = false := by
    rw [Bool.eq_false_iff, Ne, flag_iff (by omega)]
    omega
  have hcolumn : field data 0 10 = data % 2 ^ 10 := by
    rw [field_eq]
    omega
  simp only [moveColumn, hflag, hcolumn, if_neg (Nat.not_lt_of_le hout)]
  exact .single rfl

theorem rejects_moveRows (h : g.height ≤ (rowsOf data).1 ∨ g.height ≤ (rowsOf data).2) :
    a.Rejects (a.moveRows g data) := by
  simp only [moveRows]
  split
  · exact .single rfl
  · rename_i hfirst
    rw [if_pos (h.resolve_left hfirst)]
    exact .single rfl

theorem rejects_misc (hlt : data < 2 ^ 12) (hdata : data / 2 ^ 8 ≠ 0) (hconfig : data / 2 ^ 8 ≠ 3) :
    a.Rejects (a.misc data) := by
  have hcode : field data 8 4 = data / 2 ^ 8 := by
    rw [field_eq]
    omega
  unfold misc
  rw [hcode]
  split
  · exact absurd ‹_› hdata
  · exact absurd ‹_› hconfig
  · exact .single rfl

theorem rejects_read {low high : UInt8} {rest : List UInt8}
    (h : isRejected g (low :: high :: rest)) (a : Address) : a.Rejects (a.read g (word low high)) := by
  have hdata : word low high % 2 ^ 12 < 2 ^ 12 := Nat.mod_lt _ (by decide)
  have hword : word low high = 2 ^ 12 * (word low high / 2 ^ 12) + word low high % 2 ^ 12 :=
    (Nat.div_add_mod ..).symm
  simp only [isRejected] at h
  generalize word low high % 2 ^ 12 = data at h hdata hword
  generalize word low high / 2 ^ 12 = code at h hword
  split at h
  all_goals try cases h
  all_goals
    obtain ⟨hflag, hread, hcode⟩ := parts_of_word hword (by decide) hdata
    simp only [read, hflag, hread, hcode, Bool.false_eq_true, if_false]
  · exact rejects_special (by simpa using h)
  · rw [Bool.and_eq_true, decide_eq_true_iff, decide_eq_true_iff] at h
    exact rejects_moveColumn h.1 h.2
  · rw [Bool.or_eq_true, decide_eq_true_iff, decide_eq_true_iff] at h
    exact rejects_moveRows h
  · rw [Bool.and_eq_true, bne_iff_ne, bne_iff_ne] at h
    exact rejects_misc hdata h.1 h.2
  · exact .single rfl

end Address

theorem ignores_of_isRejected {g : Geometry} {unit : List UInt8} (h : isRejected g unit)
    (s : (device g).State) : (device g).Ignores s unit := by
  cases unit with
  | nil => cases h
  | cons low rest =>
    cases rest with
    | nil => cases h
    | cons high rest =>
      have hrejects := Address.rejects_read h s.address
      refine ⟨?_, hrejects.codes_eq, rfl, hrejects.isRejection⟩
      exact congrArg (fun address => { s with address }) hrejects.address_eq

end Wire.DvXplorer

/-- As long as no call but the last fails, rejected units put in among the units of a DVXplorer change
nothing but the reports on them: the results of the calls, what the decoder is left with, the exchange,
what is handed on to it and what others do to it are those of the calls without them. -/
theorem session_transparent {g : Geometry} {settings : Settings}
    {d d' : Decoder (Camera.dvXplorer g).device} {calls padded : List Call} {x x' : Exchange}
    {seen : List Occurrence} {results : List (Except DecodeError Unit)}
    (hstart : Decoder.start (Camera.dvXplorer g).device settings = .ok d)
    (hpadded : List.Forall₂ (Call.Padded Wire.DvXplorer.unitWidth (Wire.DvXplorer.isRejected g))
      calls padded)
    (hok : ∀ r ∈ results.dropLast, r.isOk) :
    (session Decoder.call padded d).Shows Notice.isRejection x seen (d', results) x' ↔
      (session Decoder.call calls d).Shows Notice.isRejection x seen (d', results) x' := by
  have hignores (unit : List UInt8) (hunit : Wire.DvXplorer.isRejected g unit)
      (s : (Wire.DvXplorer.device g).State) : (Wire.DvXplorer.device g).Ignores s unit :=
    Wire.DvXplorer.ignores_of_isRejected hunit s
  exact Decoder.shows_session_iff hignores hpadded (Decoder.providedAtRest_start hstart) hok

open Wire.DvXplorer.Encode in
def rejectedUnits : List (List UInt8) :=
  [unit 6 0, special 0, unit 5 0x100, column 700 false, groupRows 63 0]

open Wire.DvXplorer.Encode in
/-- A sample of the accelerometer, with further units in the middle of it and before its end. -/
def sampleAround (further : List (List UInt8)) : List (List UInt8) :=
  [tick 100, imuStart, imuConfig 4 0 0, imuByte 1, imuByte 2, imuByte 3] ++ further ++
    [imuByte 4, imuByte 5, imuByte 6] ++ further ++ [imuEnd]

theorem session_transparent_sample :
    ∃ (d d' : Decoder (Camera.dvXplorer Wire.DvXplorer.fullArray).device)
      (log padded : List Occurrence) (results : List (Except DecodeError Unit)) (x' : Exchange),
      Decoder.start (Camera.dvXplorer Wire.DvXplorer.fullArray).device {} = .ok d ∧
      Execution (session Decoder.call [.decode (sampleAround []).flatten, .flush] d) (.start 3) log
        (d', results) x' ∧
      Execution (session Decoder.call [.decode (sampleAround rejectedUnits).flatten, .flush] d)
        (.start 3) padded (d', results) x' ∧
      (∀ r ∈ results, r.isOk) ∧
      ((handovers (stepsOf log)).map fun h => h.sealed.container.sizeOf .imu6) = [1] ∧
      handovers (stepsOf padded) = handovers (stepsOf log) := by
  have hrun : comesTo (Camera.dvXplorer Wire.DvXplorer.fullArray).device {}
      [.decode (sampleAround []).flatten, .flush] (.start 3) fun steps results =>
        results.all Except.isOk &&
          decide (((handovers steps).map fun h => h.sealed.container.sizeOf .imu6) = [1]) := by
    decide +kernel
  have hrejected : ∀ unit ∈ rejectedUnits,
      Wire.DvXplorer.isRejected Wire.DvXplorer.fullArray unit := by decide
  have hplain : ∀ unit ∈ sampleAround [], unit.length = max Wire.DvXplorer.unitWidth 1 := by decide
  have hnoisy : ∀ unit ∈ sampleAround rejectedUnits,
      unit.length = max Wire.DvXplorer.unitWidth 1 := by decide
  have hunits : Interspersed (Wire.DvXplorer.isRejected Wire.DvXplorer.fullArray)
      (Decoder.units Wire.DvXplorer.unitWidth (sampleAround []).flatten)
      (Decoder.units Wire.DvXplorer.unitWidth (sampleAround rejectedUnits).flatten) := by
    rw [Decoder.units_flatten hplain, Decoder.units_flatten hnoisy]
    have hnoise := Interspersed.of_all hrejected
    exact ((((Interspersed.same _ _).append hnoise).append (.same _ _)).append hnoise).append
      (.same _ _)
  obtain ⟨d, d', results, steps, x', hd, h, htest⟩ := exists_of_comesTo hrun
  obtain ⟨hok, hsizes⟩ := Bool.and_eq_true_iff.1 htest
  have hok := List.all_eq_true.1 hok
  have hpadded := (session_transparent hd
    (.cons (.decode (by decide) (by decide) hunits) (.cons .flush .nil))
    fun r hr => hok r (List.dropLast_subset _ hr)).2 ⟨_, h, rfl⟩
  obtain ⟨padded, hpadded, hhanded⟩ := hpadded.exists_execution
  rw [handovers_shown] at hhanded
  refine ⟨d, d', steps.map .acted, padded, results, x', hd, h, hpadded, hok, ?_, hhanded⟩
  rw [stepsOf_acted]
  exact of_decide_eq_true hsizes

end EventCamera
