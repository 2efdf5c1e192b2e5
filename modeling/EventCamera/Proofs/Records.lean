import EventCamera.Proofs.Scratch
import EventCamera.Wire.DvXplorer
import Mathlib.Data.List.Induction

/-! # Images and inertial samples

Images and the samples of a DVXplorer are put together in scratch records. An image is closed by its end
marker, a sample is not. What a completed image holds is said by the steps since its start marker. What a
sample holds is said by them and by the scales of its sensors. -/

namespace EventCamera

/-! ## Images -/

def Scratch.images : Scratch where
  Record := FrameScratch
  takes := (· == .frame)
  makes event := event.kind == .frame
  ignoring := FrameScratch.ignoring
  apply := FrameScratch.apply
  drop := FrameScratch.invalidate
  renew := FrameScratch.invalidate
  Alike := Eq
  ignoring_drop _ := rfl
  apply_ignoring s step time hignoring hstep := by
    unfold FrameScratch.apply
    rw [hignoring]
    cases step with
    | start => exact absurd rfl hstep
    | data | config | sample | exposureStart | exposureEnd | finish => rfl
  apply_start _ _ := ⟨rfl, rfl, rfl⟩
  finish_of_closed s step time hpending hignored := by
    unfold FrameScratch.apply at hpending hignored
    cases step with
    | finish => rfl
    | start => exact absurd rfl hpending
    | data | config | sample | exposureStart | exposureEnd =>
      cases h : s.ignoring <;> simp [h] at hpending hignored
  alike_apply s s' step time h := by
    rw [h]
    exact ⟨rfl, rfl⟩

def CompositeStep.pixel? : CompositeStep → Option UInt16
  | .sample value => some value
  | .start | .data _ | .config _ | .exposureStart | .exposureEnd | .finish => none

/-- The pixels that steps send. -/
def pixelsOf (steps : List (CompositeStep × Int)) : List UInt16 :=
  steps.filterMap (·.1.pixel?)

/-- The time of the last step of a sort; zero if there is none. -/
def lastTime (sort : CompositeStep) (steps : List (CompositeStep × Int)) : Int :=
  steps.foldl (fun time s => if s.1 = sort then s.2 else time) 0

/-- The image that steps send between a start marker and an end marker. -/
def imageOf (g : Geometry) (startTime : Int) (steps : List (CompositeStep × Int)) (endTime : Int) :
    FrameEvent where
  width := g.width
  height := g.height
  pixels := (pixelsOf steps).toArray
  frameStart := startTime
  exposureStart := lastTime .exposureStart steps
  exposureEnd := lastTime .exposureEnd steps
  frameEnd := endTime

theorem lastTime_concat (sort : CompositeStep) (steps : List (CompositeStep × Int))
    (s : CompositeStep × Int) :
    lastTime sort (steps ++ [s]) = if s.1 = sort then s.2 else lastTime sort steps := by
  simp [lastTime]

theorem pixelsOf_concat (steps : List (CompositeStep × Int)) (s : CompositeStep × Int) :
    pixelsOf (steps ++ [s]) = pixelsOf steps ++ s.1.pixel?.toList := by
  cases h : s.1.pixel? <;> simp [pixelsOf, h]

namespace FrameScratch

/-- An open image after steps since its start marker: it holds what they sent, as far as there is a place
for it. -/
def filled (g : Geometry) (startTime : Int) (steps : List (CompositeStep × Int)) :
    FrameScratch where
  geometry := g
  frame := { imageOf g startTime steps 0 with
    pixels := ((pixelsOf steps).take (g.width.toNat * g.height.toNat)).toArray }
  samples := min (pixelsOf steps).length maxSamples
  ignoring := false

variable {g : Geometry} {startTime : Int} {steps : List (CompositeStep × Int)}

theorem size_lt_maxSamples (g : Geometry) : g.width.toNat * g.height.toNat < maxSamples := by
  have hwidth := g.width.toNat_lt
  have hheight := g.height.toNat_lt
  calc g.width.toNat * g.height.toNat ≤ (2 ^ 16 - 1) * (2 ^ 16 - 1) :=
        Nat.mul_le_mul (by omega) (by omega)
    _ < maxSamples := by decide

theorem filled_nil (g : Geometry) (startTime : Int) :
    filled g startTime [] = opened g startTime := by
  simp [filled, opened, imageOf, pixelsOf, lastTime]

theorem take_filled (value : UInt16) {time : Int} : (filled g startTime steps).take value =
    filled g startTime (steps ++ [(.sample value, time)]) := by
  have hsize := size_lt_maxSamples g
  have hplace : (filled g startTime steps).samples < (filled g startTime steps).expected ↔
      (pixelsOf steps).length < g.width.toNat * g.height.toNat := by
    simp only [filled, expected]
    omega
  unfold take
  by_cases hroom : (pixelsOf steps).length < g.width.toNat * g.height.toNat
  · rw [if_pos (hplace.2 hroom)]
    simp only [filled, imageOf, pixelsOf_concat, lastTime_concat, CompositeStep.pixel?,
      Option.toList_some, List.length_append, List.length_singleton, reduceCtorEq, if_false,
      FrameScratch.mk.injEq, FrameEvent.mk.injEq, true_and, and_true]
    refine ⟨?_, by omega⟩
    rw [List.take_of_length_le (by omega), List.push_toArray, List.take_of_length_le]
    simp only [List.length_append, List.length_singleton]
    omega
  · rw [if_neg fun hlt => hroom (hplace.1 hlt)]
    simp only [filled, imageOf, pixelsOf_concat, lastTime_concat, CompositeStep.pixel?,
      Option.toList_some, List.length_append, List.length_singleton, reduceCtorEq, if_false,
      FrameScratch.mk.injEq, FrameEvent.mk.injEq, true_and, and_true]
    refine ⟨?_, by omega⟩
    rw [List.take_append_of_le_length (by omega)]

theorem apply_filled {step : CompositeStep} (hstart : step ≠ .start) (hfinish : step ≠ .finish)
    (time : Int) : ((filled g startTime steps).apply step time).1 =
      filled g startTime (steps ++ [(step, time)]) := by
  cases step with
  | start => exact absurd rfl hstart
  | finish => exact absurd rfl hfinish
  | data | config | exposureStart | exposureEnd =>
    simp [filled, apply, imageOf, lastTime_concat, pixelsOf_concat, CompositeStep.pixel?]
  | sample value => exact take_filled value

/-- What the end marker of an open image says: it is complete with just as many samples as it has
pixels. -/
theorem outcome_filled (g : Geometry) (startTime : Int) (steps : List (CompositeStep × Int))
    (time : Int) : (filled g startTime steps).outcome time =
      if (pixelsOf steps).length = g.width.toNat * g.height.toNat then
        .complete (.frame (imageOf g startTime steps time))
      else
        .mismatch (min (pixelsOf steps).length maxSamples) (g.width.toNat * g.height.toNat) := by
  have hsize := size_lt_maxSamples g
  unfold outcome
  by_cases hlength : (pixelsOf steps).length = g.width.toNat * g.height.toNat
  · have hcount : (filled g startTime steps).samples = (filled g startTime steps).expected := by
      simp only [filled, expected]
      omega
    rw [if_pos hcount, if_pos hlength]
    simp only [filled, imageOf, List.take_of_length_le (Nat.le_of_eq hlength)]
  · have hcount : (filled g startTime steps).samples ≠ (filled g startTime steps).expected := by
      simp only [filled, expected]
      omega
    rw [if_neg hcount, if_neg hlength]
    rfl

end FrameScratch

namespace Wire.DvXplorer

/-- Whether the high byte of a value was taken in, and its low byte is still to come. -/
def Imu.Halfway (m : Imu) : Prop :=
  m.scratch.count < sampleBytes ∧ m.scratch.count % 2 = 1

/-- Two sensors that differ at most in a high byte that does not matter any more. -/
def Imu.Alike (m m' : Imu) : Prop :=
  ∃ high, m' = { m with high } ∧ (m.Halfway → high = m.high)

namespace Imu

theorem firstByte_even (s : Sensors) : firstByte s % 2 = 0 := by
  unfold firstByte sampleBytes
  split
  · rfl
  · split
    · rfl
    · split <;> rfl

theorem Alike.refl (m : Imu) : m.Alike m :=
  ⟨m.high, rfl, fun _ => rfl⟩

theorem place_of_full {m : Imu} (h : sampleBytes ≤ m.scratch.count) (byte : UInt8) :
    (m.place byte).1 = m := by
  unfold sampleBytes at h
  unfold place
  split
  case h_15 => rfl
  all_goals omega

theorem place_of_even {m : Imu} (hlt : m.scratch.count < sampleBytes)
    (heven : m.scratch.count % 2 = 0) (byte : UInt8) :
    (m.place byte).1 = { m with high := byte } := by
  obtain ⟨⟨event, count, ignoring⟩, sensors, accelScale, gyroScale, high⟩ := m
  simp only [sampleBytes] at hlt heven
  obtain rfl | rfl | rfl | rfl | rfl | rfl | rfl : count = 0 ∨ count = 2 ∨ count = 4 ∨ count = 6 ∨
    count = 8 ∨ count = 10 ∨ count = 12 := by omega
  all_goals rfl

/-- A byte is taken in as the low byte of a value only behind its high byte. -/
theorem Alike.data {m m' : Imu} (h : m.Alike m') (byte : UInt8) :
    (m.data byte).1.Alike (m'.data byte).1 := by
  obtain ⟨high, rfl, hhigh⟩ := h
  by_cases hfull : sampleBytes ≤ m.scratch.count
  · simp only [Imu.data, place_of_full hfull, place_of_full (m := { m with high }) hfull]
    refine ⟨high, rfl, fun hhalf => absurd hhalf.1 ?_⟩
    have hcount : (m.skip 1).scratch.count = min (m.scratch.count + 1) 255 := rfl
    have hbytes : sampleBytes = 14 := rfl
    omega
  · rw [Nat.not_le] at hfull
    rcases Nat.mod_two_eq_zero_or_one m.scratch.count with heven | hodd
    · simp only [Imu.data, place_of_even hfull heven,
        place_of_even (m := { m with high }) hfull heven]
      exact .refl _
    · obtain rfl : high = m.high := hhigh ⟨hfull, hodd⟩
      exact .refl _

theorem Alike.apply {m m' : Imu} (h : m.Alike m') (step : CompositeStep) (time : Int) :
    (m.apply step time).state.Alike (m'.apply step time).state ∧
      (m.apply step time).outcome = (m'.apply step time).outcome := by
  have hdata := h.data
  obtain ⟨high, rfl, hhigh⟩ := h
  unfold Imu.apply
  cases step with
  | start => exact ⟨⟨high, rfl, fun hhalf => nomatch hhalf.2⟩, rfl⟩
  | data byte =>
    cases hignoring : m.scratch.ignoring with
    | true => exact ⟨⟨high, rfl, hhigh⟩, rfl⟩
    | false => exact ⟨hdata byte, rfl⟩
  | config config =>
    cases hignoring : m.scratch.ignoring with
    | true => exact ⟨⟨high, rfl, hhigh⟩, rfl⟩
    | false =>
      refine ⟨⟨high, rfl, fun hhalf => ?_⟩, rfl⟩
      have heven := firstByte_even (sensorsOf config.toNat)
      have hodd : firstByte (sensorsOf config.toNat) % 2 = 1 := hhalf.2
      omega
  | finish | sample | exposureStart | exposureEnd =>
    cases hignoring : m.scratch.ignoring <;> exact ⟨⟨high, rfl, hhigh⟩, rfl⟩

end Imu

end Wire.DvXplorer

/-- The scratch record of an inertial sample, with what is remembered of the sensors. -/
def Scratch.samples : Scratch where
  Record := Wire.DvXplorer.Imu
  takes _ := true
  makes _ := true
  ignoring m := m.scratch.ignoring
  apply m step time := ((m.apply step time).state, (m.apply step time).outcome)
  drop := Wire.DvXplorer.Imu.invalidate
  renew m := { accelScale := m.accelScale, gyroScale := m.gyroScale }
  Alike := Wire.DvXplorer.Imu.Alike
  ignoring_drop _ := rfl
  apply_ignoring m step time hignoring hstep := by
    unfold Wire.DvXplorer.Imu.apply
    rw [hignoring]
    cases step with
    | start => exact absurd rfl hstep
    | data | config | sample | exposureStart | exposureEnd | finish => rfl
  apply_start m _ := ⟨rfl, rfl, 0, rfl, fun hhalf => nomatch hhalf.2⟩
  finish_of_closed m step time hpending hignored := by
    unfold Wire.DvXplorer.Imu.apply at hpending hignored
    cases step with
    | finish => rfl
    | start => exact absurd rfl hpending
    | data | config | sample | exposureStart | exposureEnd =>
      cases h : m.scratch.ignoring <;> simp [h] at hpending hignored
  alike_apply _ _ step time h := h.apply step time

/-! ## What a sample counts -/

namespace Wire.DvXplorer

/-- The count after one more byte: it jumps over the fields of a sensor that is off. -/
def Sensors.countAfter (s : Sensors) (count : Nat) : Nat :=
  if count = 5 then if s.thermometer then 6 else if s.gyroscope then 8 else sampleBytes
  else if count = 7 then if s.gyroscope then 8 else sampleBytes
  else min (count + 1) 255

namespace Imu

/-- A byte changes what is stored, the high byte, and the count. -/
theorem exists_data_eq (m : Imu) (byte : UInt8) : ∃ event high, (m.data byte).1 = { m with
    high, scratch := { m.scratch with event, count := m.sensors.countAfter m.scratch.count } } := by
  obtain ⟨⟨event, count, ignoring⟩, ⟨accelerometer, gyroscope, thermometer⟩, _, _, _⟩ := m
  simp only [data, place]
  split
  case h_10 => cases thermometer <;> cases gyroscope <;> exact ⟨_, _, rfl⟩
  case h_11 => cases gyroscope <;> exact ⟨_, _, rfl⟩
  case h_15 _ _ _ _ _ _ _ _ _ hfive hseven _ _ _ =>
    exact ⟨event, _, by simp only [Sensors.countAfter, if_neg hfive, if_neg hseven]; rfl⟩
  all_goals exact ⟨_, _, rfl⟩

/-- The sensors that are on, and the count. -/
def progress (m : Imu) : Sensors × Nat :=
  (m.sensors, m.scratch.count)

end Imu

/-- How a step of an open sample changes the sensors that are on and the count. -/
def progressAfter (p : Sensors × Nat) : CompositeStep → Sensors × Nat
  | .start => ({}, 0)
  | .data _ => (p.1, p.1.countAfter p.2)
  | .config config => (Imu.sensorsOf config.toNat, Imu.firstByte (Imu.sensorsOf config.toNat))
  | .sample _ | .exposureStart | .exposureEnd | .finish => p

def fieldsOf (steps : List (CompositeStep × Int)) : Nat :=
  (steps.foldl (fun p s => progressAfter p s.1) ({}, 0)).2

end Wire.DvXplorer

/-- An end marker closed a sample that counted so many fields. -/
def CompositeOutcome.Closes (fields : Nat) : CompositeOutcome → Prop
  | .complete _ => fields = Wire.DvXplorer.sampleBytes
  | .mismatch count expected =>
    count = fields ∧ expected = Wire.DvXplorer.sampleBytes ∧ fields ≠ Wire.DvXplorer.sampleBytes
  | .pending | .ignored => False

namespace Wire.DvXplorer

namespace Imu

/-- A sample that is open stays open, also behind its end marker. -/
theorem apply_open {m : Imu} (h : m.scratch.ignoring = false) (step : CompositeStep) (time : Int) :
    (m.apply step time).state.scratch.ignoring = false ∧
      (m.apply step time).state.progress = progressAfter m.progress step := by
  unfold apply
  rw [h]
  cases step with
  | start => exact ⟨rfl, rfl⟩
  | data byte =>
    obtain ⟨event, high, hdata⟩ := m.exists_data_eq byte
    simp only [hdata]
    exact ⟨h, rfl⟩
  | config | sample | exposureStart | exposureEnd | finish => exact ⟨h, rfl⟩

theorem replay_open {m : Imu} (h : m.scratch.ignoring = false) (steps : List (CompositeStep × Int)) :
    (Scratch.samples.replay m steps).scratch.ignoring = false ∧
      (Scratch.samples.replay m steps).progress =
        steps.foldl (fun p s => progressAfter p s.1) m.progress := by
  induction steps generalizing m with
  | nil => exact ⟨h, rfl⟩
  | cons s steps ih =>
    obtain ⟨hopen, hprogress⟩ := apply_open h s.1 s.2
    rw [List.foldl_cons, ← hprogress]
    exact ih hopen

/-- What an end marker finds is said by the steps since the start marker. -/
theorem closes_replay (m : Imu) (startTime endTime : Int) (steps : List (CompositeStep × Int)) :
    (Scratch.samples.apply (Scratch.samples.replay m ((.start, startTime) :: steps)) .finish
      endTime).2.Closes (fieldsOf steps) := by
  obtain ⟨hopen, hprogress⟩ := replay_open (m := m.start) rfl steps
  have hcount : (Scratch.samples.replay m.start steps).scratch.count = fieldsOf steps :=
    congrArg Prod.snd hprogress
  change ((Scratch.samples.replay m.start steps).apply .finish endTime).outcome.Closes _
  unfold apply
  rw [hopen]
  simp only [ImuScratch.outcome, ImuScratch.finish, hcount]
  by_cases hfields : fieldsOf steps = sampleBytes
  · rw [if_pos hfields]
    exact hfields
  · rw [if_neg hfields]
    exact ⟨rfl, rfl, hfields⟩

/-- Every byte of a sample comes behind a configuration. -/
def Configured (steps : List (CompositeStep × Int)) : Prop :=
  ∀ before byte time after, steps = before ++ (.data byte, time) :: after →
    ∃ s ∈ before, ∃ config, s.1 = .config config

theorem Configured.of_append {before after : List (CompositeStep × Int)}
    (h : Configured (before ++ after)) : Configured before := by
  rintro first byte time last rfl
  exact h first byte time (last ++ after) (by simp)

end Imu

end Wire.DvXplorer

end EventCamera
