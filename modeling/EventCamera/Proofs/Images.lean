import EventCamera.Proofs.Records
import Mathlib.Algebra.Group.Nat.Defs

/-! # Images from any history

The record of an image takes steps in any order, and is told to drop what it holds at any time. All that
its end marker finds is said by the calls since the last start marker, unless an end marker or a drop came
behind that one: then the record waits. -/

namespace EventCamera

/-- A call on the record of an image. -/
inductive FrameCall where
  | apply (step : CompositeStep) (time : Int)
  | invalidate

namespace FrameCall

/-- A call behind which nothing is left of the image. -/
inductive Drops : FrameCall → Prop where
  | finish (time : Int) : Drops (.apply .finish time)
  | invalidate : Drops .invalidate

def ofSteps (steps : List (CompositeStep × Int)) : List FrameCall :=
  steps.map fun s => .apply s.1 s.2

/-- Every start marker has a call behind it that drops its image. -/
def NoneOpen (calls : List FrameCall) : Prop :=
  ∀ before startTime since, calls = before ++ .apply .start startTime :: since →
    ∃ call ∈ since, call.Drops

/-- Behind the last start marker there are only steps that neither start nor end an image. -/
structure OpenSince (calls : List FrameCall) (startTime : Int) (steps : List (CompositeStep × Int)) :
    Prop where
  split : ∃ before, calls = before ++ .apply .start startTime :: ofSteps steps
  inner : ∀ s ∈ steps, s.1 ≠ .start ∧ s.1 ≠ .finish

variable {calls : List FrameCall} {startTime time : Int} {steps : List (CompositeStep × Int)}
  {step : CompositeStep}

theorem noneOpen_nil : NoneOpen [] := by
  intro before startTime since h
  cases before <;> cases h

/-- Behind a call that drops the image, no start marker counts any more. -/
theorem Drops.noneOpen {call : FrameCall} (h : call.Drops) (calls : List FrameCall) :
    NoneOpen (calls ++ [call]) := by
  intro before startTime since heq
  cases since using List.reverseRecOn with
  | nil =>
    obtain ⟨-, hlast⟩ := List.append_inj' heq rfl
    cases hlast
    cases h
  | append_singleton since last =>
    rw [← List.cons_append, ← List.append_assoc] at heq
    obtain ⟨-, hlast⟩ := List.append_inj' heq rfl
    cases hlast
    exact ⟨call, List.mem_append_right _ (List.mem_singleton.2 rfl), h⟩

theorem NoneOpen.concat (h : NoneOpen calls) (hstep : step ≠ .start) (time : Int) :
    NoneOpen (calls ++ [.apply step time]) := by
  intro before startTime since heq
  cases since using List.reverseRecOn with
  | nil =>
    obtain ⟨-, hlast⟩ := List.append_inj' heq rfl
    cases hlast
    exact absurd rfl hstep
  | append_singleton since last =>
    rw [← List.cons_append, ← List.append_assoc] at heq
    obtain ⟨hcalls, -⟩ := List.append_inj' heq rfl
    obtain ⟨call, hmem, hdrops⟩ := h before startTime since hcalls
    exact ⟨call, List.mem_append_left _ hmem, hdrops⟩

namespace OpenSince

theorem start (calls : List FrameCall) (time : Int) :
    OpenSince (calls ++ [.apply .start time]) time [] where
  split := ⟨calls, rfl⟩
  inner := List.forall_mem_nil _

theorem concat (h : OpenSince calls startTime steps) (hstart : step ≠ .start)
    (hfinish : step ≠ .finish) (time : Int) :
    OpenSince (calls ++ [.apply step time]) startTime (steps ++ [(step, time)]) where
  split := by
    obtain ⟨before, rfl⟩ := h.split
    exact ⟨before, by simp [ofSteps]⟩
  inner := List.forall_mem_append.2 ⟨h.inner, List.forall_mem_singleton.2 ⟨hstart, hfinish⟩⟩

/-- Steps between the markers do not drop an image. -/
theorem not_noneOpen (h : OpenSince calls startTime steps) : ¬NoneOpen calls := by
  intro hnone
  obtain ⟨before, hcalls⟩ := h.split
  obtain ⟨call, hmem, hdrops⟩ := hnone before startTime (ofSteps steps) hcalls
  obtain ⟨s, hs, rfl⟩ := List.mem_map.1 hmem
  obtain ⟨step, time⟩ := s
  cases hdrops
  exact (h.inner _ hs).2 rfl

end OpenSince

end FrameCall

namespace FrameScratch

open FrameCall

variable {g : Geometry} {s : FrameScratch} {calls later : List FrameCall} {startTime : Int}
  {steps : List (CompositeStep × Int)}

def called (s : FrameScratch) : FrameCall → FrameScratch
  | .apply step time => (s.apply step time).1
  | .invalidate => s.invalidate

def after (g : Geometry) (calls : List FrameCall) : FrameScratch :=
  calls.foldl called (waiting g)

/-- How a record stands behind calls: it waits, or it holds what was sent since the start marker. -/
inductive Standing (g : Geometry) (calls : List FrameCall) : FrameScratch → Prop where
  | waits : NoneOpen calls → Standing g calls (waiting g)
  | holds (startTime : Int) (steps : List (CompositeStep × Int)) :
      OpenSince calls startTime steps → Standing g calls (filled g startTime steps)

theorem Standing.geometry_eq (h : Standing g calls s) : s.geometry = g := by
  cases h <;> rfl

theorem Standing.start (h : Standing g calls s) (time : Int) :
    Standing g (calls ++ [.apply .start time]) (s.apply .start time).1 := by
  have hopened : (s.apply .start time).1 = filled g time [] := by
    rw [filled_nil, ← h.geometry_eq]
    rfl
  rw [hopened]
  exact .holds time [] (.start calls time)

theorem Standing.finish (h : Standing g calls s) (time : Int) :
    Standing g (calls ++ [.apply .finish time]) (s.apply .finish time).1 := by
  have hnone := (Drops.finish time).noneOpen calls
  cases h with
  | waits => exact .waits hnone
  | holds => exact .waits hnone

theorem Standing.invalidate (h : Standing g calls s) :
    Standing g (calls ++ [.invalidate]) s.invalidate := by
  have hwaiting : s.invalidate = waiting g := congrArg waiting h.geometry_eq
  rw [hwaiting]
  exact .waits (Drops.invalidate.noneOpen calls)

/-- A record that waits ignores all but a start marker. -/
theorem apply_waiting {step : CompositeStep} (h : step ≠ .start) (time : Int) :
    (waiting g).apply step time = (waiting g, .ignored) :=
  Scratch.images.apply_ignoring (waiting g) step time rfl h

theorem Standing.inner {step : CompositeStep} (h : Standing g calls s) (hstart : step ≠ .start)
    (hfinish : step ≠ .finish) (time : Int) :
    Standing g (calls ++ [.apply step time]) (s.apply step time).1 := by
  cases h with
  | waits hnone =>
    rw [apply_waiting hstart]
    exact .waits (hnone.concat hstart time)
  | holds startTime steps hopen =>
    rw [apply_filled hstart hfinish]
    exact .holds startTime _ (hopen.concat hstart hfinish time)

theorem Standing.called (h : Standing g calls s) (call : FrameCall) :
    Standing g (calls ++ [call]) (s.called call) := by
  cases call with
  | invalidate => exact h.invalidate
  | apply step time =>
    by_cases hstart : step = .start
    · subst hstart
      exact h.start time
    · by_cases hfinish : step = .finish
      · subst hfinish
        exact h.finish time
      · exact h.inner hstart hfinish time

/-- From a start marker on a record holds what is sent. -/
theorem foldl_called_filled (hsteps : ∀ s ∈ steps, s.1 ≠ .start ∧ s.1 ≠ .finish) :
    (ofSteps steps).foldl called (opened g startTime) = filled g startTime steps := by
  induction steps using List.reverseRecOn with
  | nil => exact (filled_nil g startTime).symm
  | append_singleton steps s ih =>
    obtain ⟨hbefore, hlast⟩ := List.forall_mem_append.1 hsteps
    obtain ⟨hstart, hfinish⟩ := hlast s (List.mem_singleton.2 rfl)
    rw [ofSteps, List.map_append, List.foldl_append, ← ofSteps, ih hbefore]
    exact apply_filled hstart hfinish s.2

/-- How a record stands is said by the calls on it. -/
theorem standing_after (g : Geometry) (calls : List FrameCall) :
    Standing g calls (after g calls) := by
  induction calls using List.reverseRecOn with
  | nil => exact .waits noneOpen_nil
  | append_singleton calls call ih =>
    rw [after, List.foldl_append]
    exact ih.called call

theorem pixel?_imageOf {time : Int}
    (h : (pixelsOf steps).length = g.width.toNat * g.height.toNat) {x y : UInt16}
    (hplace : g.contains x y) :
    ∃ hlt : y.toNat * g.width.toNat + x.toNat < (pixelsOf steps).length,
      (imageOf g startTime steps time).pixel? x y =
        some (pixelsOf steps)[y.toNat * g.width.toNat + x.toNat] := by
  simp only [Geometry.contains, Bool.and_eq_true, decide_eq_true_eq] at hplace
  have hx : x.toNat < g.width.toNat := hplace.1
  have hy : y.toNat < g.height.toNat := hplace.2
  have hlt : y.toNat * g.width.toNat + x.toNat < (pixelsOf steps).length := by
    calc y.toNat * g.width.toNat + x.toNat
        < y.toNat * g.width.toNat + g.width.toNat := Nat.add_lt_add_left hx _
      _ = (y.toNat + 1) * g.width.toNat := (Nat.succ_mul _ _).symm
      _ ≤ g.height.toNat * g.width.toNat := Nat.mul_le_mul_right _ hy
      _ = (pixelsOf steps).length := by rw [h, Nat.mul_comm]
  refine ⟨hlt, ?_⟩
  simp only [FrameEvent.pixel?, imageOf, hplace, and_self, if_true, List.getElem?_toArray,
    List.getElem?_eq_getElem hlt]

/-- The record of an open image holds what was sent since its start marker. -/
theorem after_of_openSince (g : Geometry) (h : OpenSince calls startTime steps) :
    after g calls = filled g startTime steps := by
  obtain ⟨before, rfl⟩ := h.split
  have hgeometry : (before.foldl called (waiting g)).geometry = g :=
    (standing_after g before).geometry_eq
  have hstart : called (before.foldl called (waiting g)) (.apply .start startTime) =
      opened g startTime := congrArg (opened · startTime) hgeometry
  rw [after, List.foldl_append, List.foldl_cons, hstart, foldl_called_filled h.inner]

theorem Standing.eq_waiting (h : Standing g calls s) (hnone : NoneOpen calls) : s = waiting g := by
  cases h with
  | waits => rfl
  | holds _ _ hopen => exact absurd hnone hopen.not_noneOpen

theorem Standing.exists_of_not_noneOpen (h : Standing g calls s) (hsome : ¬NoneOpen calls) :
    ∃ startTime steps, OpenSince calls startTime steps := by
  cases h with
  | waits hnone => exact absurd hnone hsome
  | holds startTime steps hopen => exact ⟨startTime, steps, hopen⟩

/-- Behind an end marker all steps are ignored up to the next start marker. -/
theorem noneOpen_behind_finish (calls : List FrameCall) (time : Int)
    (hlater : ∀ startTime, .apply .start startTime ∉ later) :
    NoneOpen (calls ++ .apply .finish time :: later) := by
  induction later using List.reverseRecOn with
  | nil => exact (Drops.finish time).noneOpen calls
  | append_singleton later call ih =>
    have hnone := ih fun startTime hmem => hlater startTime (List.mem_append_left _ hmem)
    rw [← List.cons_append, ← List.append_assoc]
    cases call with
    | invalidate => exact Drops.invalidate.noneOpen _
    | apply step at_ =>
      refine hnone.concat (fun hstart => hlater at_ ?_) at_
      rw [hstart]
      exact List.mem_append_right _ (List.mem_singleton.2 rfl)

/-- Images are put together exactly, in whatever order a record is called. Its end marker is ignored
just if no start marker counts. Otherwise it finds the samples since the last start marker, and the image is
complete just if there is one for each pixel. Then it has them in order, with the times of its markers, and
behind the end marker the record waits. -/
theorem finish_after (g : Geometry) (calls : List FrameCall) (time : Int) :
    (((after g calls).apply .finish time).2 = .ignored ↔ NoneOpen calls) ∧
      (¬NoneOpen calls → ∃ startTime steps, OpenSince calls startTime steps) ∧
      (∀ startTime steps, OpenSince calls startTime steps →
        ((after g calls).apply .finish time).2 =
          if (pixelsOf steps).length = g.width.toNat * g.height.toNat then
            .complete (.frame (imageOf g startTime steps time))
          else
            .mismatch (min (pixelsOf steps).length (2 ^ 32 - 1))
              (g.width.toNat * g.height.toNat)) ∧
      (∀ startTime steps, (pixelsOf steps).length = g.width.toNat * g.height.toNat →
        ∀ x y, g.contains x y →
          ∃ hlt : y.toNat * g.width.toNat + x.toNat < (pixelsOf steps).length,
            (imageOf g startTime steps time).pixel? x y =
              some (pixelsOf steps)[y.toNat * g.width.toNat + x.toNat]) ∧
      ∀ later, (∀ startTime, .apply .start startTime ∉ later) → ∀ step stepTime, step ≠ .start →
        ((after g (calls ++ .apply .finish time :: later)).apply step stepTime).2 = .ignored := by
  have hstanding := standing_after g calls
  have hfinish (startTime steps) (hopen : OpenSince calls startTime steps) :
      ((after g calls).apply .finish time).2 = (filled g startTime steps).outcome time := by
    rw [after_of_openSince g hopen]
    rfl
  refine ⟨⟨fun hignored => ?_, fun hnone => ?_⟩, fun hsome => ?_, ?_, ?_, ?_⟩
  · by_contra hsome
    obtain ⟨startTime, steps, hopen⟩ := hstanding.exists_of_not_noneOpen hsome
    rw [hfinish startTime steps hopen, outcome_filled] at hignored
    split at hignored <;> cases hignored
  · rw [hstanding.eq_waiting hnone, apply_waiting (by simp)]
  · exact hstanding.exists_of_not_noneOpen hsome
  · intro startTime steps hopen
    rw [hfinish startTime steps hopen]
    exact outcome_filled g startTime steps time
  · intro startTime steps hlength x y hplace
    exact pixel?_imageOf hlength hplace
  · intro later hlater step stepTime hstep
    have hnone := noneOpen_behind_finish calls time hlater
    rw [(standing_after g _).eq_waiting hnone, apply_waiting hstep]

/-- Two samples make an image of one row, and the sample before the start marker does not count. -/
theorem finish_after_of_two_pixels :
    ((after ⟨2, 1⟩ [.apply (.sample 9) 0, .apply .start 1, .apply (.sample 7) 2,
      .apply .exposureEnd 3, .apply (.sample 8) 4]).apply .finish 5).2 =
        .complete (.frame (imageOf ⟨2, 1⟩ 1 [(.sample 7, 2), (.exposureEnd, 3), (.sample 8, 4)] 5)) ∧
      (imageOf ⟨2, 1⟩ 1 [(.sample 7, 2), (.exposureEnd, 3), (.sample 8, 4)] 5).pixel? 1 0 = some 8 ∧
      ((after ⟨2, 1⟩ ([.apply (.sample 9) 0, .apply .start 1, .apply (.sample 7) 2,
        .apply .exposureEnd 3, .apply (.sample 8) 4] ++ .apply .finish 5 ::
          [.apply (.sample 6) 6])).apply .finish 7).2 = .ignored := by
  obtain ⟨-, -, hclosed, hpixels, hlater⟩ := finish_after ⟨2, 1⟩ [.apply (.sample 9) 0,
    .apply .start 1, .apply (.sample 7) 2, .apply .exposureEnd 3, .apply (.sample 8) 4] 5
  have hopen : OpenSince [.apply (.sample 9) 0, .apply .start 1, .apply (.sample 7) 2,
      .apply .exposureEnd 3, .apply (.sample 8) 4] 1
      [(.sample 7, 2), (.exposureEnd, 3), (.sample 8, 4)] :=
    ⟨⟨[.apply (.sample 9) 0], rfl⟩, by decide⟩
  obtain ⟨hlt, hpixel⟩ := hpixels 1 [(.sample 7, 2), (.exposureEnd, 3), (.sample 8, 4)]
    (by decide) 1 0 (by decide)
  exact ⟨hclosed 1 _ hopen, hpixel, hlater [.apply (.sample 6) 6] (by simp) .finish 7 (by simp)⟩

end FrameScratch

end EventCamera
