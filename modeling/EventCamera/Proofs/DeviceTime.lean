import EventCamera.Collector
import EventCamera.Proofs.Cameras

/-! # Device time without bounds

The time of a device is told by all the turns of its tick counter since the time last started over,
and by the ticks since the last turn. The clock keeps it in two parts of bounded size, and loses
nothing of it. -/

namespace EventCamera

theorem epochLength_pos : 0 < epochLength := by decide

/-- The turns of a tick counter, and its value since the last one. -/
structure Elapsed where
  turns : Nat := 0
  ticks : Nat := 0

namespace Elapsed

def after (e : Elapsed) : Mark → Elapsed
  | .silent => e
  | .tick ticks => { e with ticks }
  | .turns count => { turns := e.turns + count }
  | .reset => {}

/-- The device time, in microseconds. -/
def time (e : Elapsed) (wrapUnit : Int) : Int :=
  wrapUnit * e.turns + e.ticks

/-- How often the time of events has run over. -/
def epochs (e : Elapsed) (wrapUnit : Int) : Int :=
  wrapUnit * e.turns / epochLength

/-- What a counter of 32 bits shows of how often the time of events has run over. -/
def epoch (e : Elapsed) (wrapUnit : Int) : Int :=
  Int.bmod (e.epochs wrapUnit) 0x100000000

theorem epochs_eq {e : Elapsed} {wrapUnit epochs base : Int} (hnonneg : 0 ≤ base)
    (hlt : base < epochLength) (h : epochs * epochLength + base = wrapUnit * e.turns) :
    e.epochs wrapUnit = epochs := by
  simp only [Elapsed.epochs, epochLength] at *
  omega

theorem epochs_nonneg (e : Elapsed) {wrapUnit : Int} (h : 0 < wrapUnit) : 0 ≤ e.epochs wrapUnit :=
  Int.ediv_nonneg (Int.mul_nonneg (Int.le_of_lt h) (Int.natCast_nonneg _))
    (Int.le_of_lt epochLength_pos)

theorem epoch_eq_of_lt (e : Elapsed) {wrapUnit : Int} (hpos : 0 < wrapUnit)
    (h : e.epochs wrapUnit < 2 ^ 31) : e.epoch wrapUnit = e.epochs wrapUnit := by
  have := e.epochs_nonneg hpos
  exact Int.bmod_eq_of_le (by omega) (by omega)

end Elapsed

/-- What has elapsed since the last reset, or since the first unit. -/
def Camera.elapsed (c : Camera) (units : List (List UInt8)) : Elapsed :=
  units.foldl (fun e unit => e.after (c.mark unit)) {}

def Camera.time (c : Camera) (units : List (List UInt8)) : Int :=
  (c.elapsed units).time c.device.wrapUnit

/-- How often the time of events has run over since the last reset. -/
def Camera.epochs (c : Camera) (units : List (List UInt8)) : Int :=
  (c.elapsed units).epochs c.device.wrapUnit

def Camera.epoch (c : Camera) (units : List (List UInt8)) : Int :=
  (c.elapsed units).epoch c.device.wrapUnit

theorem Camera.elapsed_append_singleton (c : Camera) (units : List (List UInt8))
    (unit : List UInt8) : c.elapsed (units ++ [unit]) = (c.elapsed units).after (c.mark unit) := by
  simp only [elapsed, List.foldl_append, List.foldl_cons, List.foldl_nil]

theorem Camera.epochs_nil (c : Camera) : c.epochs [] = 0 := by
  simp [epochs, elapsed, Elapsed.epochs]

theorem Camera.epochs_nonneg (c : Camera) (units : List (List UInt8)) : 0 ≤ c.epochs units :=
  (c.elapsed units).epochs_nonneg c.wrapUnit_spec.1

theorem Camera.epoch_eq_of_lt (c : Camera) {units : List (List UInt8)}
    (h : c.epochs units < 2 ^ 31) : c.epoch units = c.epochs units :=
  (c.elapsed units).epoch_eq_of_lt c.wrapUnit_spec.1 h

/-- The epochs since a reset fit their counter, a signed number of 32 bits. -/
def Camera.InRange (c : Camera) (units : List (List UInt8)) : Prop :=
  ∀ past, past <+: units → c.epochs past < 2 ^ 31

theorem Camera.InRange.of_prefix {c : Camera} {past units : List (List UInt8)}
    (h : c.InRange units) (hp : past <+: units) : c.InRange past :=
  fun past' hpast => h past' (hpast.trans hp)

theorem Camera.InRange.now {c : Camera} {units : List (List UInt8)} (h : c.InRange units) :
    c.epochs units < 2 ^ 31 :=
  h units List.prefix_rfl

theorem Camera.turns_after_le (c : Camera) (e : Elapsed) (unit : List UInt8) :
    (e.after (c.mark unit)).turns ≤ e.turns + 2 ^ 12 := by
  cases hm : c.mark unit with
  | silent | tick => exact Nat.le_add_right ..
  | turns count =>
    have := count_lt hm
    simp only [Elapsed.after]
    omega
  | reset => exact Nat.zero_le _

theorem Camera.epochs_le_length (c : Camera) (units : List (List UInt8)) :
    c.epochs units ≤ units.length := by
  have hfold (e : Elapsed) : (units.foldl (fun e unit => e.after (c.mark unit)) e).turns ≤
      e.turns + 2 ^ 12 * units.length := by
    induction units generalizing e with
    | nil => exact Nat.le_refl _
    | cons unit units ih =>
      have := ih (e.after (c.mark unit))
      have := c.turns_after_le e unit
      simp only [List.foldl_cons, List.length_cons]
      omega
  have hturns : (c.elapsed units).turns ≤ 0 + 2 ^ 12 * units.length := hfold {}
  obtain ⟨-, hunit, -⟩ := c.wrapUnit_spec
  have hmul : c.device.wrapUnit * (c.elapsed units).turns ≤ 2 ^ 15 * (c.elapsed units).turns :=
    Int.mul_le_mul_of_nonneg_right hunit (Int.natCast_nonneg _)
  simp only [epochs, Elapsed.epochs, epochLength]
  omega

namespace Clock

theorem endsEpoch_iff {c : Clock} {multiplier : UInt32} :
    c.endsEpoch multiplier ↔ epochLength ≤ c.wrapSum multiplier := by
  rw [endsEpoch, decide_eq_true_iff]
  simp only [maxTime, epochLength]
  omega

theorem isDue_of_some {c : Clock} {deadline : Int} (h : c.deadline = some deadline) :
    c.isDue ↔ deadline < c.full := by
  simp only [isDue, h, decide_eq_true_iff]

theorem arm_of_some {c : Clock} {deadline : Int} (h : c.deadline = some deadline) (interval : Int) :
    c.arm interval = c := by
  simp only [arm, h]

theorem full_arm (c : Clock) (interval : Int) : (c.arm interval).full = c.full := by
  simp only [arm]
  split <;> rfl

theorem deadline_wrap (c : Clock) (multiplier : UInt32) :
    (c.wrap multiplier).deadline = c.deadline := by
  simp only [wrap]
  split <;> rfl

/-- A clock shows what has elapsed, as far as its counter of epochs goes. Its tick counter fits a whole
number of times into an epoch, so that a tick never leads out of one. -/
structure Tells (c : Clock) (e : Elapsed) : Prop where
  wrapUnit_pos : 0 < c.wrapUnit
  wrapUnit_le : c.wrapUnit ≤ 2 ^ 15
  wrapUnit_dvd : c.wrapUnit ∣ epochLength
  base_dvd : c.wrapUnit ∣ c.base
  base_nonneg : 0 ≤ c.base
  base_lt : c.base < epochLength
  turns_eq : e.epochs c.wrapUnit * epochLength + c.base = c.wrapUnit * e.turns
  epoch_eq : c.epoch = e.epoch c.wrapUnit
  current_eq : c.current = c.base + e.ticks
  ticks_lt : e.ticks < c.wrapUnit

namespace Tells

variable {c : Clock} {e : Elapsed}

theorem base_add_wrapUnit_le (h : c.Tells e) : c.base + c.wrapUnit ≤ epochLength := by
  have hdvd : c.wrapUnit ∣ epochLength - c.base := Int.dvd_sub h.wrapUnit_dvd h.base_dvd
  have := Int.le_of_dvd (Int.sub_pos_of_lt h.base_lt) hdvd
  omega

theorem current_nonneg (h : c.Tells e) : 0 ≤ c.current := by
  have := h.base_nonneg
  rw [h.current_eq]
  omega

theorem current_le (h : c.Tells e) : c.current ≤ maxTime := by
  have := h.base_add_wrapUnit_le
  have := h.ticks_lt
  rw [h.current_eq]
  simp only [maxTime, epochLength] at *
  omega

/-- Epochs and current time are together the device time. -/
theorem time_eq (h : c.Tells e) :
    e.epochs c.wrapUnit * epochLength + c.current = e.time c.wrapUnit := by
  rw [h.current_eq, ← Int.add_assoc, h.turns_eq]
  rfl

theorem full_eq (h : c.Tells e) (hepochs : e.epochs c.wrapUnit < 2 ^ 31) :
    c.full = e.time c.wrapUnit := by
  have hnonneg := e.epochs_nonneg h.wrapUnit_pos
  rw [full, h.epoch_eq, e.epoch_eq_of_lt h.wrapUnit_pos hepochs,
    fullTime_eq (by omega) (by omega) h.current_nonneg h.current_le, h.time_eq]

theorem full_eq_current (h : c.Tells e) (hepoch : c.epoch = 0) : c.full = c.current := by
  have hle := h.current_le
  have hnonneg := h.current_nonneg
  rw [full, hepoch, fullTime_eq (by decide) (by decide) hnonneg hle, Int.zero_mul, Int.zero_add]

theorem tick (h : c.Tells e) {ticks : Nat} (hlt : ticks < c.wrapUnit) :
    (c.tick (.ofNat ticks)).Tells (e.after (.tick ticks)) := by
  have hcurrent : (c.tick (.ofNat ticks)).current = c.base + ticks := by
    have hroom := h.base_add_wrapUnit_le
    have hunit := h.wrapUnit_le
    have hticks : (UInt32.ofNat ticks).toNat = ticks :=
      UInt32.toNat_ofNat_of_lt (show ticks < 2 ^ 32 by omega)
    simp only [Clock.tick, hticks, maxTime, epochLength] at *
    omega
  exact ⟨h.wrapUnit_pos, h.wrapUnit_le, h.wrapUnit_dvd, h.base_dvd, h.base_nonneg, h.base_lt,
    h.turns_eq, h.epoch_eq, hcurrent, hlt⟩

/-- A clock whose base was moved shows the turns that moved it. -/
theorem of_base {c' : Clock} {turns : Nat} {epochs : Int} (h : c.Tells e)
    (hunit : c'.wrapUnit = c.wrapUnit) (hdvd : c.wrapUnit ∣ c'.base) (hnonneg : 0 ≤ c'.base)
    (hlt : c'.base < epochLength) (hturns : epochs * epochLength + c'.base = c.wrapUnit * turns)
    (hepoch : c'.epoch = Int.bmod epochs 0x100000000) (hcurrent : c'.current = c'.base) :
    c'.Tells { turns } := by
  have hepochs : Elapsed.epochs { turns } c.wrapUnit = epochs :=
    Elapsed.epochs_eq hnonneg hlt hturns
  refine ⟨?_, ?_, ?_, ?_, hnonneg, hlt, ?_, ?_, ?_, ?_⟩
  all_goals try rw [hunit]
  · exact h.wrapUnit_pos
  · exact h.wrapUnit_le
  · exact h.wrapUnit_dvd
  · exact hdvd
  · rw [hepochs]
    exact hturns
  · rw [hepoch, Elapsed.epoch, hepochs]
  · exact hcurrent.trans (Int.add_zero _).symm
  · exact h.wrapUnit_pos

theorem jump_le (h : c.Tells e) {count : Nat} (hlt : count < 2 ^ 12) :
    c.wrapUnit * count ≤ 2 ^ 15 * 2 ^ 12 :=
  Int.mul_le_mul h.wrapUnit_le (by omega) (by omega) (by decide)

/-- The turns of one unit do not lead from time zero to the end of the epoch. -/
theorem not_endsEpoch_of_base (h : c.Tells e) (hbase : c.base = 0) {count : Nat}
    (hlt : count < 2 ^ 12) : ¬ c.endsEpoch (.ofNat count) := by
  have hcount : (UInt32.ofNat count).toNat = count :=
    UInt32.toNat_ofNat_of_lt (show count < 2 ^ 32 by omega)
  have hjump := h.jump_le hlt
  rw [endsEpoch_iff, wrapSum, hbase, hcount]
  simp only [epochLength]
  omega

/-- A wrap moves the base on by whole turns, but by less than an epoch. -/
theorem wrapSum_spec (h : c.Tells e) {count : Nat} (hlt : count < 2 ^ 12) :
    c.wrapUnit ∣ c.wrapSum (.ofNat count) ∧ 0 ≤ c.wrapSum (.ofNat count) ∧
      c.wrapSum (.ofNat count) < epochLength + 2 ^ 27 ∧
      e.epochs c.wrapUnit * epochLength + c.wrapSum (.ofNat count) =
        c.wrapUnit * (e.turns + count : Nat) := by
  have hcount : (UInt32.ofNat count).toNat = count :=
    UInt32.toNat_ofNat_of_lt (show count < 2 ^ 32 by omega)
  have hjump := h.jump_le hlt
  have hjump_nonneg : 0 ≤ c.wrapUnit * (count : Int) :=
    Int.mul_nonneg (Int.le_of_lt h.wrapUnit_pos) (Int.natCast_nonneg count)
  have hbase := h.base_nonneg
  have hbase_lt := h.base_lt
  rw [wrapSum, hcount]
  refine ⟨Int.dvd_add h.base_dvd (Int.dvd_mul_right ..), by omega, by omega, ?_⟩
  rw [← Int.add_assoc, h.turns_eq, Int.natCast_add, Int.mul_add]

/-- The turns of one unit lead into the next epoch at most. -/
theorem epochs_after_turns (h : c.Tells e) {count : Nat} (hlt : count < 2 ^ 12) :
    (e.after (.turns count)).epochs c.wrapUnit =
      e.epochs c.wrapUnit + if c.endsEpoch (.ofNat count) then 1 else 0 := by
  obtain ⟨-, hnonneg, hsum_lt, hturns⟩ := h.wrapSum_spec hlt
  have hends : c.endsEpoch (.ofNat count) ↔ epochLength ≤ c.wrapSum (.ofNat count) := endsEpoch_iff
  split
  · have hge := hends.1 ‹_›
    have hrest : 0 ≤ c.wrapSum (.ofNat count) - epochLength ∧
        c.wrapSum (.ofNat count) - epochLength < epochLength := by
      simp only [epochLength] at *
      omega
    refine Elapsed.epochs_eq hrest.1 hrest.2 ?_
    simp only [Elapsed.after, epochLength] at *
    omega
  · have hlt := Int.lt_of_not_ge (mt hends.2 ‹_›)
    rw [Int.add_zero]
    exact Elapsed.epochs_eq hnonneg hlt hturns

theorem wrap (h : c.Tells e) {count : Nat} (hlt : count < 2 ^ 12) :
    (c.wrap (.ofNat count)).Tells (e.after (.turns count)) := by
  obtain ⟨hsum_dvd, hnonneg, hsum_lt, hturns⟩ := h.wrapSum_spec hlt
  by_cases hends : c.endsEpoch (.ofNat count)
  · have hge := endsEpoch_iff.1 hends
    have hrest : (c.wrapSum (.ofNat count) - epochLength) % epochLength =
        c.wrapSum (.ofNat count) - epochLength := by
      simp only [epochLength] at *
      omega
    have hw : c.wrap (.ofNat count) = { c with
        base := c.wrapSum (.ofNat count) - epochLength
        last := c.wrapSum (.ofNat count) - epochLength
        current := c.wrapSum (.ofNat count) - epochLength
        epoch := Int.bmod (c.epoch + 1) 0x100000000 } := by
      rw [Clock.wrap, if_pos hends, hrest]
    have hepoch : Int.bmod (c.epoch + 1) 0x100000000 =
        Int.bmod (e.epochs c.wrapUnit + 1) 0x100000000 := by
      rw [h.epoch_eq, Elapsed.epoch, Int.bmod_add_bmod]
    rw [hw]
    refine h.of_base rfl (Int.dvd_sub hsum_dvd h.wrapUnit_dvd) ?_ ?_ ?_ hepoch rfl
    all_goals simp only [epochLength] at *
    all_goals omega
  · have hlt := Int.lt_of_not_ge (mt endsEpoch_iff.2 hends)
    have hrest : Int.bmod (c.wrapSum (.ofNat count)) 0x100000000 = c.wrapSum (.ofNat count) := by
      simp only [epochLength] at *
      rw [Int.bmod_eq_of_le] <;> omega
    have hw : c.wrap (.ofNat count) = { c with
        base := c.wrapSum (.ofNat count)
        last := c.current
        current := c.wrapSum (.ofNat count) } := by
      rw [Clock.wrap, if_neg hends, hrest]
    rw [hw]
    exact h.of_base rfl hsum_dvd hnonneg hlt hturns h.epoch_eq rfl

theorem reset (h : c.Tells e) : c.reset.Tells (e.after .reset) :=
  h.of_base rfl (Int.dvd_zero _) (Int.le_refl 0) epochLength_pos
    (show (0 : Int) * epochLength + 0 = _ by simp) rfl rfl

theorem congr {c' : Clock} (h : c.Tells e) (hunit : c'.wrapUnit = c.wrapUnit)
    (hbase : c'.base = c.base) (hepoch : c'.epoch = c.epoch) (hcurrent : c'.current = c.current) :
    c'.Tells e := by
  obtain ⟨h₁, h₂, h₃, h₄, h₅, h₆, h₇, h₈, h₉, h₁₀⟩ := h
  rw [← hunit] at *
  rw [← hbase] at *
  rw [← hepoch] at *
  rw [← hcurrent] at *
  exact ⟨h₁, h₂, h₃, h₄, h₅, h₆, h₇, h₈, h₉, h₁₀⟩

theorem arm (h : c.Tells e) (interval : Int) : (c.arm interval).Tells e := by
  unfold Clock.arm
  split
  · exact h
  · exact h.congr rfl rfl rfl rfl

theorem postpone (h : c.Tells e) (interval : Int) : (c.postpone interval).Tells e := by
  unfold Clock.postpone
  split
  · split
    · exact h.congr rfl rfl rfl rfl
    · exact h
  · exact h

end Tells

theorem tells_start (c : Camera) : c.device.clock.Tells {} := by
  obtain ⟨hpos, hle, hdvd⟩ := c.wrapUnit_spec
  exact ⟨hpos, hle, hdvd, Int.dvd_zero _, Int.le_refl 0, epochLength_pos,
    by simp [Device.clock, start, Elapsed.epochs], by simp [Device.clock, start, Elapsed.epoch,
      Elapsed.epochs], rfl, hpos⟩

end Clock

end EventCamera
