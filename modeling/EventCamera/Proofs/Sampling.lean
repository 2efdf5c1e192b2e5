import EventCamera.Proofs.Epochs

/-! # Open samples

A device is at a sample from the start of the sample on. A reset or the end of an epoch that does not
fail drops the sample, and only another start opens one again. -/

namespace EventCamera

def Wire.DvXplorer.startsSample : List UInt8 → Bool
  | low :: high :: _ => word low high = 5
  | _ => false

theorem Wire.DvXplorer.startsSample_of_mem {g : Geometry} {s : State} {unit : List UInt8}
    {kind : CompositeKind} (h : .composite kind .start ∈ (classify g s unit).codes) :
    startsSample unit := by
  match unit with
  | low :: high :: _ =>
    have hword := word_lt low high
    simp only [classify, Address.read, flag_iff hword] at h
    split at h
    · simp at h
    · rename_i htick
      split at h
      · rename_i hcode
        unfold Address.special at h
        split at h
        case h_6 hdata =>
          rw [field_eq] at hcode hdata
          simp only [startsSample, decide_eq_true_eq]
          omega
        all_goals simp at h
      · unfold Address.moveColumn at h
        by_cases hstart : flag (field (word low high) 0 12) 11
        all_goals
          simp only [hstart, if_true] at h
          split at h <;> simp at h
      · simp [Address.pixelGroup] at h
      · simp [Address.pixelGroup] at h
      · unfold Address.moveRows at h
        simp only at h
        split at h
        · simp at h
        · split at h <;> simp at h
      · unfold Address.misc at h
        split at h <;> simp at h
      · simp at h
      · simp at h
  | [] | [_] => simp [classify] at h

namespace Camera

def startsSample : Camera → List UInt8 → Bool
  | .dvs128 => fun _ => false
  | .dvXplorer _ => Wire.DvXplorer.startsSample

/-- Whether a device is at a sample. -/
def sampling : (c : Camera) → c.device.State → Bool
  | .dvs128 => fun _ => false
  | .dvXplorer _ => fun s : Wire.DvXplorer.State => !s.imu.scratch.ignoring

variable {c : Camera}

theorem sampling_invalidate (s : c.device.State) : c.sampling (c.device.invalidate s) = false := by
  cases c <;> rfl

theorem sampling_classify (s : c.device.State) (unit : List UInt8) :
    c.sampling (c.device.classify s unit).state = c.sampling s := by
  cases c with
  | dvs128 => rfl
  | dvXplorer g =>
    match unit with
    | _ :: _ :: _ => rfl
    | [] | [_] => rfl

theorem sampling_compose {s : c.device.State} (h : c.sampling s = false) (kind : CompositeKind)
    {step : CompositeStep} (hstep : step ≠ .start) (time : Int) :
    c.sampling (c.device.compose s kind step time).state = false := by
  cases c with
  | dvs128 => rfl
  | dvXplorer g =>
    obtain ⟨address, imu⟩ := s
    have hignoring : imu.scratch.ignoring = true := (Bool.not_eq_false' _).mp h
    have hstate : (imu.apply step time).state = imu := by
      unfold Wire.DvXplorer.Imu.apply
      rw [hignoring]
      cases step with
      | start => exact absurd rfl hstep
      | data | config | sample | exposureStart | exposureEnd | finish => rfl
    change (!(imu.apply step time).state.scratch.ignoring) = false
    rw [hstate, hignoring]
    rfl

theorem startsSample_of_mem {s : c.device.State} {unit : List UInt8} {kind : CompositeKind}
    (h : .composite kind .start ∈ (c.device.classify s unit).codes) : c.startsSample unit := by
  cases c with
  | dvs128 =>
    change _ ∈ Wire.Dvs128.codes unit at h
    unfold Wire.Dvs128.codes at h
    split at h
    · simp only at h
      split at h
      · simp at h
      · split at h
        · simp at h
        · split at h <;> simp [Wire.Dvs128.pixel] at h
    · simp at h
  | dvXplorer g => exact Wire.DvXplorer.startsSample_of_mem h

end Camera

/-! ## Codes -/

namespace Decoder

section Device

variable {dev : Device}

theorem device_push (d : Decoder dev) (k : EventKind) (event : k.Record) (notices : List Notice)
    (forced : Option Forced) : (d.push k event notices forced).decoder.device = d.device := by
  unfold push
  split <;> rfl

theorem device_pushPixel (d : Decoder dev) (x y : UInt16) (on : Bool) :
    (d.pushPixel x y on).decoder.device = d.device := by
  unfold pushPixel
  split
  · exact d.device_push ..
  · rfl

theorem device_pushGroup (d : Decoder dev) (x base : UInt16) (mask : UInt8) (on : Bool) :
    (d.pushGroup x base mask on).decoder.device = d.device := by
  unfold pushGroup
  split
  · exact KeptByCodes.forEach (P := fun d' => d'.device = d.device)
      (fun y _ d' h => (d'.device_pushPixel x y on).trans h) rfl
  · rfl

theorem device_applyComposite (d : Decoder dev) (kind : CompositeKind) (step : CompositeStep) :
    (d.applyComposite kind step).decoder.device =
      (dev.compose d.device kind step d.clock.current).state := by
  simp only [applyComposite]
  cases (dev.compose d.device kind step d.clock.current).outcome with
  | complete event => exact device_push { d with device := _ } ..
  | mismatch | pending | ignored => rfl

end Device

variable {c : Camera} {d : Decoder c.device}

theorem sampling_apply {code : Code} (hcode : ∀ kind, code ≠ .composite kind .start)
    (h : c.sampling d.device = false) : c.sampling (apply code d).decoder.device = false := by
  cases code with
  | tick | reset => exact h
  | wrap multiplier =>
    simp only [apply]
    split
    · rw [device_push]
      exact h
    · exact h
  | pixel x y on => exact (congrArg c.sampling (d.device_pushPixel x y on)).trans h
  | group x base mask on => exact (congrArg c.sampling (d.device_pushGroup x base mask on)).trans h
  | special kind data => exact (congrArg c.sampling (d.device_push ..)).trans h
  | composite kind step =>
    have hstep : step ≠ .start := by
      rintro rfl
      exact hcode kind rfl
    refine (congrArg c.sampling (d.device_applyComposite kind step)).trans ?_
    exact Camera.sampling_compose h kind hstep _

theorem sampling_applyUnit {unit : List UInt8} (hunit : c.startsSample unit = false)
    (h : c.sampling d.device = false) : c.sampling (d.applyUnit unit).decoder.device = false := by
  refine KeptByCodes.forEach (P := fun d => c.sampling d.device = false)
    (fun code hmem d hd => sampling_apply (fun kind hstart => ?_) hd) ?_
  · subst hstart
    rw [Camera.startsSample_of_mem hmem] at hunit
    cases hunit
  · exact (Camera.sampling_classify d.device unit).trans h

end Decoder

/-! ## Units -/

namespace Ledger

variable {c : Camera} {b : Ledger c.device}

/-- A unit opens no sample unless it starts one, whether it fails or not. -/
theorem sampling_advance {unit : List UInt8} (hunit : c.startsSample unit = false)
    (h : c.sampling b.decoder.device = false) :
    c.sampling (b.advance (.unit unit)).decoder.device = false := by
  have happlied := Decoder.sampling_applyUnit hunit h
  have hmade := b.decoder.make_made (.unit unit)
  by_cases hok : (b.decoder.settle unit).result.isOk
  · obtain ⟨forced, hforced⟩ := hmade.exists_forced hok
    refine (congrArg c.sampling (Decoder.device_settled hforced hok)).trans ?_
    split
    · exact Camera.sampling_invalidate _
    · exact happlied
  · cases hmade with
    | failed _ hd => exact (congrArg (fun d => c.sampling d.device) hd).trans happlied
    | cut _ _ _ _ hdevice => exact (congrArg c.sampling hdevice).trans happlied
    | kept _ _ hr | sealed _ _ hr =>
      rw [show (b.decoder.settle unit).result = _ from hr] at hok
      exact absurd rfl hok

theorem sampling_run {units : List (List UInt8)} (hunits : ∀ u ∈ units, c.startsSample u = false)
    (h : c.sampling b.decoder.device = false) :
    c.sampling (b.run (units.map .unit)).decoder.device = false := by
  induction units generalizing b with
  | nil => exact h
  | cons unit units ih =>
    obtain ⟨hfirst, hrest⟩ := List.forall_mem_cons.1 hunits
    exact ih hrest (sampling_advance hfirst h)

/-- A unit that forces a sealing and does not fail drops the sample. -/
theorem sampling_of_forces {unit : List UInt8}
    (h : ((c.mark unit).forces b.decoder.clock).isSome)
    (hok : (b.decoder.make (.unit unit)).result.isOk) :
    c.sampling (b.advance (.unit unit)).decoder.device = false := by
  obtain ⟨forced, hforced⟩ := (b.decoder.make_made (.unit unit)).exists_forced hok
  obtain ⟨body, hleads⟩ := c.leads b.decoder.device unit
  obtain rfl := Decoder.forced_forEach_leads hleads hforced
  refine (congrArg c.sampling ((Decoder.device_settled hforced hok).trans (if_pos h))).trans ?_
  exact Camera.sampling_invalidate _

end Ledger

/-- A sample that is open after some units was started after each of them that ended an epoch or was a
reset. -/
def Camera.SampleFresh (c : Camera) (past units : List (List UInt8)) (s : c.device.State) : Prop :=
  ∀ before unit after, units = before ++ unit :: after →
    c.EndsEpoch (past ++ before) unit ∨ c.mark unit = .reset →
    c.sampling s → ∃ start ∈ after, c.startsSample start

/-- As long as no end of an epoch and no reset fails, no sample outlives one. -/
theorem Ledger.ClockShowsTime.sampleFresh {c : Camera} {b : Ledger c.device} (h : b.ClockShowsTime)
    {units : List (List UInt8)}
    (hok : ∀ before unit after, units = before ++ unit :: after →
      c.EndsEpoch (b.units ++ before) unit ∨ c.mark unit = .reset →
      ((b.run (before.map .unit)).decoder.make (.unit unit)).result.isOk) :
    c.SampleFresh b.units units (b.run (units.map .unit)).decoder.device := by
  rintro before unit after rfl hunit hsampling
  have hforces : ((c.mark unit).forces (b.run (before.map .unit)).decoder.clock).isSome := by
    rcases hunit with hends | hreset
    · rw [← b.units_run_units, (h.run _).endsEpoch_iff] at hends
      rw [hends]
      rfl
    · rw [hreset]
      rfl
  have hclosed := sampling_of_forces hforces (hok before unit after rfl hunit)
  cases hstart : after.any c.startsSample with
  | true => exact List.any_eq_true.1 hstart
  | false =>
    have hnone : ∀ u ∈ after, c.startsSample u = false := by
      simpa only [List.any_eq_false, Bool.not_eq_true] using hstart
    have hend := sampling_run hnone hclosed
    rw [List.map_append, List.map_cons, run_append] at hsampling
    exact absurd (hend.symm.trans hsampling) Bool.false_ne_true

end EventCamera
