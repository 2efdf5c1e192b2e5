import EventCamera.Proofs.Accumulation
import EventCamera.Proofs.ExactTime

/-! # Arming the deadline

A deadline is held against the full time, but it is armed from the time within the epoch. In the
first epoch the two are the same. In any later one a deadline has passed as soon as it is armed, by
all the epochs before; a camera never gets there, since it arms its deadline long before the first
epoch ends. -/

namespace EventCamera

namespace Clock

def Update.keepsDeadline : Update → Bool
  | .tick _ | .wrap _ | .arm _ => true
  | .reset | .disarm | .postpone _ => false

theorem deadline_apply {c : Clock} {deadline : Int} {u : Update} (hu : u.keepsDeadline)
    (h : c.deadline = some deadline) : (c.apply u).deadline = some deadline := by
  cases u with
  | tick ticks => exact h
  | wrap multiplier => exact (c.deadline_wrap multiplier).trans h
  | arm interval => exact (congrArg Clock.deadline (arm_of_some h interval)).trans h
  | reset | disarm | postpone => cases hu

theorem deadline_run {c : Clock} {deadline : Int} {updates : List Update}
    (hu : ∀ u ∈ updates, u.keepsDeadline) (h : c.deadline = some deadline) :
    (c.run updates).deadline = some deadline := by
  induction updates generalizing c with
  | nil => exact h
  | cons u us ih =>
    have hstep := deadline_apply (hu u (List.mem_cons_self ..)) h
    exact ih (fun u hmem => hu u (List.mem_cons_of_mem _ hmem)) hstep

/-- The deadline that a clock arms is one interval ahead of the full time, and stays until it is
reached. -/
structure ArmsAhead (c : Clock) (interval : Int) : Prop where
  deadline_eq : (c.arm interval).deadline = some (c.full + interval - 1)
  not_isDue : (c.arm interval).isDue = false
  isDue_iff : ∀ updates : List Update, (∀ u ∈ updates, u.keepsDeadline) →
    (((c.arm interval).run updates).isDue ↔
      c.full + interval ≤ ((c.arm interval).run updates).full)

section Unarmed

variable {c : Clock} {interval : Int}

theorem deadline_arm (h : c.deadline = none) (hone : 1 ≤ interval) :
    (c.arm interval).deadline = some (c.current + interval - 1) := by
  simp only [arm, h, Int.max_eq_left hone]

theorem armsAhead_iff (h : c.deadline = none) (hone : 1 ≤ interval) :
    c.ArmsAhead interval ↔ c.full = c.current := by
  have hdeadline := deadline_arm h hone
  constructor
  · intro hahead
    have hsame := Option.some.inj (hahead.deadline_eq.symm.trans hdeadline)
    omega
  · intro hfull
    rw [← hfull] at hdeadline
    have hdue (updates : List Update) (hu : ∀ u ∈ updates, u.keepsDeadline) :
        ((c.arm interval).run updates).isDue ↔
          c.full + interval ≤ ((c.arm interval).run updates).full := by
      rw [isDue_of_some (deadline_run hu hdeadline)]
      omega
    refine ⟨hdeadline, ?_, hdue⟩
    rw [Bool.eq_false_iff, Ne, isDue_of_some hdeadline, full_arm]
    omega

end Unarmed

namespace Sums

variable {c : Clock} {p : Past} {interval : Int}

theorem full_eq (h : c.Sums p) (hends : p.ends < 2 ^ 31) :
    c.full = p.ends * epochLength + c.current := by
  have hnonneg := Int.le_trans h.base_nonneg h.base_le
  have hepoch := h.epoch_eq
  rw [full, fullTime_eq (by omega) (by omega) hnonneg h.current_le, hepoch]

/-- A deadline is armed one interval ahead of the full time less all epochs that have ended. -/
theorem deadline_arm (h : c.Sums p) (hends : p.ends < 2 ^ 31) (hdeadline : c.deadline = none)
    (hone : 1 ≤ interval) :
    (c.arm interval).deadline = some (c.full - p.ends * epochLength + interval - 1) := by
  rw [Clock.deadline_arm hdeadline hone, h.full_eq hends]
  exact congrArg some (by omega)

theorem isDue_arm (h : c.Sums p) (hends : p.ends < 2 ^ 31) (hdeadline : c.deadline = none)
    (hone : 1 ≤ interval) (hmax : interval ≤ maxTime) :
    (c.arm interval).isDue ↔ p.ends ≠ 0 := by
  rw [isDue_of_some (h.deadline_arm hends hdeadline hone), full_arm]
  simp only [epochLength, maxTime] at *
  omega

theorem armsAhead (h : c.Sums p) (hends : p.ends < 2 ^ 31) (hdeadline : c.deadline = none)
    (hone : 1 ≤ interval) : c.ArmsAhead interval ↔ p.ends = 0 := by
  rw [armsAhead_iff hdeadline hone, h.full_eq hends]
  simp only [epochLength]
  omega

end Sums

/-- Whatever a clock went through, a deadline that it arms in its first epoch is one interval ahead,
and a deadline that it arms in any other has passed. -/
theorem run_arm {wrapUnit interval : Int} (hpos : 0 < wrapUnit) (hle : wrapUnit ≤ maxTime)
    (order : TimeOrder) (updates : List Update)
    (hends : ((start wrapUnit order).past updates).ends < 2 ^ 31)
    (hdeadline : ((start wrapUnit order).run updates).deadline = none)
    (hone : 1 ≤ interval) (hmax : interval ≤ maxTime) :
    (((start wrapUnit order).run updates).ArmsAhead interval ↔
        ((start wrapUnit order).past updates).ends = 0) ∧
      ((((start wrapUnit order).run updates).arm interval).isDue ↔
        ((start wrapUnit order).past updates).ends ≠ 0) ∧
      (((start wrapUnit order).run updates).arm interval).deadline =
        some (((start wrapUnit order).run updates).full -
          ((start wrapUnit order).past updates).ends * epochLength + interval - 1) := by
  have hsums : ((start wrapUnit order).run updates).Sums ((start wrapUnit order).past updates) :=
    ((counts_start hpos hle order).run updates).sums hends
  exact ⟨hsums.armsAhead hends hdeadline hone, hsums.isDue_arm hends hdeadline hone hmax,
    hsums.deadline_arm hends hdeadline hone⟩

/-- A deadline that is armed, dropped, and armed anew, before and behind the end of an epoch. -/
theorem run_arm_over_end :
    ((start 0x8000 .strict).run [.tick 100, .arm 50, .disarm]).ArmsAhead 50 ∧
      (((start 0x8000 .strict).run [.tick 100, .arm 50, .disarm, .wrap 0x10000]).arm 50).isDue ∧
      ¬ ((start 0x8000 .strict).run [.tick 100, .arm 50, .disarm, .wrap 0x10000]).ArmsAhead 50 := by
  have hbefore := run_arm (show 0 < 0x8000 by decide) (show 0x8000 ≤ maxTime by decide) .strict
    [.tick 100, .arm 50, .disarm] (by decide) (by decide) (show 1 ≤ 50 by decide) (by decide)
  have hbehind := run_arm (show 0 < 0x8000 by decide) (show 0x8000 ≤ maxTime by decide) .strict
    [.tick 100, .arm 50, .disarm, .wrap 0x10000] (by decide) (by decide) (show 1 ≤ 50 by decide)
    (by decide)
  exact ⟨hbefore.1.2 (by decide), hbehind.2.1.2 (by decide), mt hbehind.1.1 (by decide)⟩

/-- A marker that ends the first epoch, and then a deadline: it is due as soon as it is armed. -/
theorem not_armsAhead_after_end :
    ((start 0x8000 .nonDecreasing).run [.wrap 0x10000]).deadline = none ∧
      ((start 0x8000 .nonDecreasing).run [.wrap 0x10000]).full = 0x80000000 ∧
      (((start 0x8000 .nonDecreasing).run [.wrap 0x10000]).arm 100).deadline = some 99 ∧
      (((start 0x8000 .nonDecreasing).run [.wrap 0x10000]).arm 100).isDue ∧
      ¬ ((start 0x8000 .nonDecreasing).run [.wrap 0x10000]).ArmsAhead 100 := by
  refine ⟨by decide, by decide, by decide, by decide, ?_⟩
  intro hahead
  have hfull : ((start 0x8000 .nonDecreasing).run [.wrap 0x10000]).full =
      ((start 0x8000 .nonDecreasing).run [.wrap 0x10000]).current :=
    (armsAhead_iff (by decide) (by decide)).1 hahead
  exact absurd hfull (by decide)

/-- A clock that has no deadline is in the first turn of its counter. -/
def InFirstTurn (c : Clock) : Prop :=
  c.deadline = none → c.epoch = 0 ∧ c.base = 0

theorem inFirstTurn_arm (c : Clock) (interval : Int) : (c.arm interval).InFirstTurn := by
  intro hnone
  cases hd : c.deadline <;> simp [arm, hd] at hnone

theorem InFirstTurn.postpone {c : Clock} (h : c.InFirstTurn) (interval : Int) :
    (c.postpone interval).InFirstTurn := by
  cases hd : c.deadline with
  | none =>
    have hsame : c.postpone interval = c := by simp only [Clock.postpone, hd]
    rwa [hsame]
  | some deadline =>
    intro hnone
    simp only [Clock.postpone, hd] at hnone
    split at hnone
    · cases hnone
    · rw [hd] at hnone
      cases hnone

theorem Tells.deadline_arm {c : Clock} {e : Elapsed} (h : c.Tells e) (hepoch : c.epoch = 0)
    (hnone : c.deadline = none) (interval : Int) :
    (c.arm interval).deadline = some ((c.arm interval).full + max interval 1 - 1) := by
  rw [full_arm, h.full_eq_current hepoch]
  simp only [Clock.arm, hnone]

end Clock

namespace Camera

variable {c : Camera} {clock : Clock}

theorem inFirstTurn_move {e : Elapsed} (h : clock.InFirstTurn) (htells : clock.Tells e)
    (unit : List UInt8) (interval : Int) :
    ((c.mark unit).move interval clock).InFirstTurn := by
  cases hm : c.mark unit with
  | silent => exact h
  | tick | reset => exact Clock.inFirstTurn_arm _ _
  | turns count =>
    simp only [Mark.move]
    split
    · rename_i hends
      intro hnone
      rw [Clock.deadline_wrap] at hnone
      exact absurd hends (htells.not_endsEpoch_of_base (h hnone).2 (count_lt hm))
    · exact Clock.inFirstTurn_arm _ _

theorem armsAhead_move {e : Elapsed} (h : clock.InFirstTurn) (htells : clock.Tells e)
    (hunit : clock.wrapUnit = c.device.wrapUnit) (hnone : clock.deadline = none)
    (unit : List UInt8) (interval : Int) :
    ((c.mark unit).move interval clock).deadline = none ∨
      ((c.mark unit).move interval clock).deadline =
        some (((c.mark unit).move interval clock).full + max interval 1 - 1) := by
  obtain ⟨hepoch, hbase⟩ := h hnone
  cases hm : c.mark unit with
  | silent => exact .inl hnone
  | tick ticks =>
    have htick := htells.tick (hunit ▸ ticks_lt hm)
    exact .inr (htick.deadline_arm hepoch hnone interval)
  | turns count =>
    have hends := htells.not_endsEpoch_of_base hbase (count_lt hm)
    have hwrap := htells.wrap (count_lt hm)
    have hepoch' : (clock.wrap (.ofNat count)).epoch = 0 := by
      rw [Clock.wrap, if_neg hends]
      exact hepoch
    rw [Mark.move, if_neg hends]
    exact .inr (hwrap.deadline_arm hepoch' ((clock.deadline_wrap _).trans hnone) interval)
  | reset => exact .inr (htells.reset.deadline_arm rfl rfl interval)

end Camera

namespace Ledger

variable {c : Camera} {b : Ledger c.device}

theorem inFirstTurn_advance (h : b.decoder.clock.InFirstTurn) (hclockShows : b.ClockShowsTime)
    (m : Move) :
    (b.advance m).decoder.clock.InFirstTurn := by
  have hmoved : (b.decoder.moved m).decoder.clock.InFirstTurn := by
    cases m with
    | rest => exact h
    | unit unit =>
      have hclock : (b.decoder.moved (.unit unit)).decoder.clock = _ := b.clock_applyUnit unit
      rw [hclock]
      exact Camera.inFirstTurn_move h hclockShows.tells unit _
  rw [decoder_advance]
  rcases (b.decoder.make_made m).clock_eq with hclock | hclock
  · rwa [hclock]
  · rw [hclock]
    exact hmoved.postpone _

theorem inFirstTurn_run (h : b.decoder.clock.InFirstTurn) (hclockShows : b.ClockShowsTime)
    (moves : List Move) :
    (b.run moves).decoder.clock.InFirstTurn := by
  induction moves generalizing b with
  | nil => exact h
  | cons m moves ih => exact ih (inFirstTurn_advance h hclockShows m) (hclockShows.advance m)

end Ledger

/-- Whatever calls came before, a camera arms its deadline one interval ahead of the full time. -/
theorem session_armsAhead {c : Camera} {settings : Settings} {d d' : Decoder c.device}
    {calls : List Call} {x x' : Exchange} {log : List Occurrence}
    {results : List (Except DecodeError Unit)}
    (hstart : Decoder.start c.device settings = .ok d)
    (h : Execution (session Decoder.call calls d) x log (d', results) x')
    (hnone : d'.clock.deadline = none) (unit : List UInt8) :
    (d'.applyUnit unit).decoder.clock.deadline = none ∨
      (d'.applyUnit unit).decoder.clock.deadline =
        some ((d'.applyUnit unit).decoder.clock.full + max d'.collector.interval 1 - 1) := by
  obtain ⟨b, hb, rfl⟩ := Ledger.exists_execution { decoder := d } h
  obtain ⟨moves, hcourse, -⟩ := Ledger.trace_session hb.trace
  have hfirst : d.clock.InFirstTurn := by
    intro _
    rw [(Decoder.start_ok hstart).clock_eq]
    exact ⟨rfl, rfl⟩
  have hrun : b.decoder.clock.InFirstTurn := by
    rw [hcourse.end_eq]
    exact Ledger.inFirstTurn_run hfirst (Ledger.clockShowsTime_start hstart) moves
  have hclockShows : b.ClockShowsTime := by
    rw [hcourse.end_eq]
    exact ((Ledger.clockShowsTime_start hstart).run moves).count _
  rw [b.clock_applyUnit unit]
  exact Camera.armsAhead_move hrun hclockShows.tells hclockShows.wrapUnit_eq hnone unit _

end EventCamera
