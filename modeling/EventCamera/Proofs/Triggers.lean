import EventCamera.Proofs.Running
import EventCamera.Proofs.Sealing
import Mathlib.Order.Bounds.Basic

/-! # Evaluations settle

An evaluation seals the batch if a buffer is full, if the deadline has passed, or if it has to.
Whatever its reason, it leaves none for another one: the buffers are empty, and the deadline has
moved on by the fewest whole intervals that bring it up to the time of the clock. -/

namespace EventCamera

namespace Clock

/-- The clock with a deadline that is some intervals later, if there is one. -/
def later (c : Clock) (interval : Int) (count : Nat) : Clock :=
  { c with deadline := c.deadline.map (· + count * max interval 1) }

/-- The numbers of intervals after which the deadline is not behind the time. -/
def reaching (c : Clock) (interval : Int) : Set Nat :=
  {count | (c.later interval count).isDue = false}

theorem later_zero (c : Clock) (interval : Int) : c.later interval 0 = c := by
  cases c with
  | mk _ _ _ _ _ _ deadline => cases deadline <;> simp [later]

theorem reaching_of_none {c : Clock} (h : c.deadline = none) (interval : Int) :
    c.reaching interval = Set.univ := by
  ext count
  simp [reaching, later, isDue, h]

theorem reaching_of_some {c : Clock} {deadline : Int} (h : c.deadline = some deadline)
    (interval : Int) :
    c.reaching interval = {count : Nat | c.full - deadline ≤ count * max interval 1} := by
  ext count
  have hfull : (c.later interval count).full = c.full := rfl
  have hlater : (c.later interval count).deadline = some (deadline + count * max interval 1) := by
    simp [later, h]
  simp only [reaching, isDue, hlater, hfull, Set.mem_ofPred_eq, decide_eq_false_iff_not]
  omega

theorem roundedUp_le_iff {distance step count : Int} (hstep : 0 < step) :
    (distance + step - 1) / step ≤ count ↔ distance ≤ count * step := by
  rw [← Int.lt_add_one_iff, Int.ediv_lt_iff_lt_mul hstep, Int.add_mul, Int.one_mul]
  omega

/-- The rounded quotient is the least number of steps that cover the distance, and zero if there is
none to cover. -/
theorem isLeast_roundedUp {distance step : Int} (hstep : 0 < step) :
    IsLeast {count : Nat | distance ≤ count * step} ((distance + step - 1) / step).toNat := by
  constructor
  · exact (roundedUp_le_iff hstep).1 (Int.self_le_toNat _)
  · intro count hcount
    exact Int.toNat_le.2 ((roundedUp_le_iff hstep).2 hcount)

/-- Postponing moves a deadline by the fewest intervals after which it is not behind. -/
theorem postpone_eq_later (c : Clock) (interval : Int) :
    ∃ count, IsLeast (c.reaching interval) count ∧
      c.postpone interval = c.later interval count := by
  cases hd : c.deadline with
  | none =>
    refine ⟨0, ?_, ?_⟩
    · simp [reaching_of_none hd, IsLeast, lowerBounds]
    · simp [postpone, hd, later_zero]
  | some deadline =>
    have hstep : 0 < max interval 1 := by omega
    refine ⟨((c.full - deadline + max interval 1 - 1) / max interval 1).toNat, ?_, ?_⟩
    · rw [reaching_of_some hd]
      exact isLeast_roundedUp hstep
    · by_cases hlate : deadline < c.full
      · have hnonneg : 0 ≤ (c.full - deadline + max interval 1 - 1) / max interval 1 :=
          Int.ediv_nonneg (by omega) (by omega)
        simp only [postpone, later, hd, if_pos hlate, Option.map_some,
          Int.toNat_of_nonneg hnonneg]
      · have hzero : (c.full - deadline + max interval 1 - 1) / max interval 1 ≤ 0 :=
          (roundedUp_le_iff hstep).2 (by omega)
        rw [Int.toNat_of_nonpos hzero, later_zero]
        simp [postpone, hd, hlate]

theorem not_isDue_postpone (c : Clock) (interval : Int) : (c.postpone interval).isDue = false := by
  obtain ⟨count, hleast, heq⟩ := c.postpone_eq_later interval
  rw [heq]
  exact hleast.1

end Clock

/-- What is handed on is never still accumulating. -/
theorem outcomeOf_ne_accumulating (hs : List Handover) : outcomeOf hs ≠ .accumulating := by
  cases hlast : hs.getLast? with
  | none => simp [outcomeOf, hlast]
  | some last =>
    simp only [outcomeOf, hlast, Option.map_some, Option.getD_some, Handover.outcome]
    split_ifs <;> simp

namespace Collector

variable {c c' : Collector}

theorem not_isFull_of_isEmpty (h : ∀ k, (c.batch.get k).isEmpty) : c.isFull = false := by
  have hsize (k : EventKind) : (c.batch.get k).size = 0 := by
    have := h k
    simpa [Buffer.isEmpty, Buffer.size] using this
  cases hlimit : c.sizeLimit with
  | zero => simp [isFull, hlimit]
  | succ limit => simp [isFull, hlimit, PerKind.collect, EventKind.all, hsize]

/-- What is left after everything was taken out is at rest. -/
theorem Emptied.atRest {s : Sealing} (h : c.Emptied s c') : c'.AtRest := by
  refine ⟨not_isFull_of_isEmpty h.fresh_isEmpty, ?_⟩
  rw [h.clock_eq]
  exact Clock.not_isDue_postpone ..

/-- What an evaluation leaves, with the steps by which it handed containers on. -/
structure Settles (c : Collector) (steps : List Step) (outcome : Outcome) (c' : Collector) :
    Prop where
  not_isFull : c'.isFull = false
  not_isDue : c'.clock.isDue = false
  /-- All that changes in the clock is the deadline. -/
  clock_eq : ∃ count, IsLeast (c.clock.reaching c.interval) count ∧
    c'.clock = c.clock.later c.interval count
  untouched : outcome = .accumulating → steps = [] ∧ c' = c
  emptied : outcome ≠ .accumulating →
    ∀ k, (c'.batch.get k).isEmpty ∧ (c'.batch.get k).epoch = c'.clock.epoch
  /-- Another evaluation does nothing. -/
  idle : c'.evaluate none = .ok (pure (.accumulating, c'))

theorem replaceable_of_start {settings : Settings} {clock : Clock} {built : Collector}
    (h : start settings clock = .ok built)
    (hlimit : ∀ k, (c.batch.get k).limit = (built.batch.get k).limit)
    (hmemory : SparesNew c.memory settings.capacityLimit) : c.Replaceable := by
  unfold start at h
  obtain ⟨batch, hbatch, h⟩ := exists_of_bind_eq_ok h
  cases h
  intro k
  obtain ⟨-, -, hsame, hpos⟩ := Buffer.ofKind_ok (Batch.ofKind_of_start hbatch k)
  rw [hlimit k, hsame]
  exact ⟨hpos, hmemory⟩

theorem AtRest.evaluate_none (h : c.AtRest) : c.evaluate none = .ok (pure (.accumulating, c)) := by
  rw [evaluate, h.settle_none]
  rfl

theorem AtRest.settles (h : c.AtRest) : c.Settles [] .accumulating c := by
  have hzero : 0 ∈ c.clock.reaching c.interval := by
    simpa [Clock.reaching, Clock.later_zero] using h.not_isDue
  have hleast : IsLeast (c.clock.reaching c.interval) 0 := ⟨hzero, fun _ _ => Nat.zero_le _⟩
  exact
    { not_isFull := h.not_isFull
      not_isDue := h.not_isDue
      clock_eq := ⟨0, hleast, (Clock.later_zero _ _).symm⟩
      untouched := fun _ => ⟨rfl, rfl⟩
      emptied := fun he => absurd rfl he
      idle := h.evaluate_none }

/-- What a sealing leaves is settled, whatever becomes of its containers. -/
theorem Emptied.settles {s : Sealing} (h : c.Emptied s c') (steps : List Step) :
    c.Settles steps (outcomeOf (handovers steps)) (c'.count (handovers steps)) := by
  have hrest : (c'.count (handovers steps)).AtRest := ⟨h.atRest.not_isFull, h.atRest.not_isDue⟩
  obtain ⟨count, hleast, hlater⟩ := c.clock.postpone_eq_later c.interval
  exact
    { not_isFull := hrest.not_isFull
      not_isDue := hrest.not_isDue
      clock_eq := ⟨count, hleast, h.clock_eq.trans hlater⟩
      untouched := fun he => absurd he (outcomeOf_ne_accumulating _)
      emptied := fun _ k => ⟨h.fresh_isEmpty k, h.fresh_epoch_eq k⟩
      idle := hrest.evaluate_none }

/-- An evaluation seals nothing if it has no reason to, and otherwise takes everything out. -/
theorem settle_cases (hr : c.Replaceable) (forced : Option Forced) :
    (c.settle forced = .ok (none, c) ∧ c.AtRest) ∨
      ∃ sealing c', c.settle forced = .ok (some sealing, c') ∧ sealing.fault? = none ∧
        c.TakenOut forced sealing c' := by
  cases c.settlement forced with
  | quiet _ hrest hs => exact .inl ⟨hs, hrest⟩
  | failed ht =>
    have hok := hr.isOk_takeOut forced
    rw [ht] at hok
    cases hok
  | sealed ht hs => exact .inr ⟨_, _, hs, hr.takenOut ht⟩

end Collector

namespace Decoder

variable {dev : Device} {d : Decoder dev}

/-- A unit that does not fail leaves the collector at rest. -/
theorem atRest_settled {a : Applied dev} (hok : (settled a).result.isOk) :
    (settled a).decoder.collector.AtRest := by
  cases (settled_made a).completed hok with
  | kept _ hd hr => exact hd ▸ atRest_of_settled hr
  | sealed _ ht => exact ht.atRest

theorem atRest_settleRest (h : d.collector.AtRest) : d.settleRest.decoder.collector.AtRest := by
  unfold settleRest
  by_cases hpending : d.pending = 0
  · rwa [if_pos hpending]
  · rw [if_neg hpending]
    cases htaken : d.collector.takeOut none with
    | error e => exact h
    | ok r => exact (Collector.takeOut_ok htaken).1.atRest

end Decoder

/-- Every evaluation comes to an end, if there is someone to take containers, and whatever the queue
answers, no trigger is pending afterwards; nor is a reset left without its container. The contents of the
buffers, their epochs and capacities, the clock, the size limit and the interval are any; only the limits
of the buffers are those of a collector that could be built, and there is memory for new buffers. -/
theorem evaluate_settles {settings : Settings} {clock : Clock} {built c : Collector}
    (hbuilt : Collector.start settings clock = .ok built)
    (hlimit : ∀ k, (c.batch.get k).limit = (built.batch.get k).limit)
    (hmemory : SparesNew c.memory settings.capacityLimit) (forced : Option Forced) :
    ∃ p, c.evaluate forced = .ok p ∧
      (∀ sealing c', c.settle forced = .ok (some sealing, c') → sealing.fault? = none) ∧
      (∀ steps outcome c', Trace p steps (outcome, c') → c.Settles steps outcome c') ∧
      ∀ x : Exchange, x.Bounded → ∃ log outcome c' x', Execution p x log (outcome, c') x' := by
  have hreplaceable := Collector.replaceable_of_start hbuilt hlimit hmemory
  have hends (p : Producer (Outcome × Collector)) (x : Exchange) (hx : x.Bounded) :
      ∃ log outcome c' x', Execution p x log (outcome, c') x' := by
    obtain ⟨log, ⟨outcome, c'⟩, x', hrun, -⟩ := p.exists_steady hx
    exact ⟨log, outcome, c', x', hrun⟩
  unfold Collector.evaluate
  rcases Collector.settle_cases hreplaceable forced with
    ⟨hs, hrest⟩ | ⟨sealing, c₁, hs, hfault, htaken⟩
  · refine ⟨_, by rw [hs]; rfl, fun _ _ hsome => by simp [hs] at hsome, ?_, hends _⟩
    intro steps outcome c' htrace
    cases htrace
    exact hrest.settles
  · refine ⟨_, by rw [hs]; rfl, fun _ _ hsome => ?_, ?_, hends _⟩
    · cases hs.symm.trans hsome
      exact hfault
    · intro steps outcome c' htrace
      obtain ⟨-, rfl, rfl⟩ := Collector.trace_handOn htrace
      exact htaken.settles steps

def Collector.overdue : Collector where
  sizeLimit := 2
  interval := 10000
  memory := maxReservation
  clock := { Clock.start 0x4000 .nonDecreasing with current := 25000, deadline := some 9999 }
  batch :=
    { special := ⟨#[], 128, defaultCapacityLimit, 0⟩
      polarity := ⟨#[⟨1, 2, true, 25000⟩], 4096, defaultCapacityLimit, 0⟩
      frame := ⟨#[], 8, defaultCapacityLimit, 0⟩
      imu6 := ⟨#[], 128, defaultCapacityLimit, 0⟩ }

theorem evaluate_settles_overdue :
    ∃ built p, Collector.start {} (.start 0x4000 .nonDecreasing) = .ok built ∧
      (∀ k, (Collector.overdue.batch.get k).limit = (built.batch.get k).limit) ∧
      SparesNew Collector.overdue.memory (Settings.capacityLimit {}) ∧
      Collector.overdue.clock.isDue ∧ Collector.overdue.evaluate none = .ok p ∧
      ∀ steps outcome c', Trace p steps (outcome, c') →
        Collector.overdue.Settles steps outcome c' := by
  cases hbuilt : Collector.start {} (.start 0x4000 .nonDecreasing) with
  | error e => cases hbuilt
  | ok built =>
    have hlimit (k : EventKind) :
        (Collector.overdue.batch.get k).limit = (built.batch.get k).limit := by
      cases hbuilt
      cases k <;> rfl
    have hmemory : SparesNew Collector.overdue.memory (Settings.capacityLimit {}) := by
      intro k
      cases k <;> decide
    obtain ⟨p, hp, -, hsettles, -⟩ := evaluate_settles hbuilt hlimit hmemory none
    exact ⟨built, p, rfl, hlimit, hmemory, by decide +kernel, hp, hsettles⟩

end EventCamera
