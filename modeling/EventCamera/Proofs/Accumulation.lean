import EventCamera.Proofs.DeviceTime

/-! # What the wrap markers come to

A clock of any wrap unit takes wrap markers of any worth. However they are mixed with ticks and
resets, its base is the remainder of all the jumps since the last reset, its epoch counts the
markers that ended one, as far as 32 bits go, and up to there no number on the way is too large for
the place it is kept in. -/

namespace EventCamera

/-- A number that is kept in so many bits, one of them for the sign. -/
def InBits (bits : Nat) (n : Int) : Prop :=
  -(2 ^ (bits - 1)) ≤ n ∧ n < 2 ^ (bits - 1)

namespace Clock

/-- How far wrap markers worth `multiplier` turns move the time on. -/
def jump (c : Clock) (multiplier : UInt32) : Int :=
  c.wrapUnit * multiplier.toNat

/-- The wrap markers since the last reset. -/
structure Past where
  /-- How far each of them moved the time on. -/
  jumps : List Int := []
  /-- How many of them ended an epoch. -/
  ends : Nat := 0

namespace Past

/-- The whole way that the time has moved on. -/
def total (p : Past) : Int :=
  p.jumps.foldl (· + ·) 0

/-- The past of a clock after a further update. -/
def after (p : Past) (c : Clock) : Update → Past
  | .wrap multiplier =>
    { jumps := p.jumps ++ [c.jump multiplier], ends := p.ends + (c.endsEpoch multiplier).toNat }
  | .reset => {}
  | .tick _ | .arm _ | .disarm | .postpone _ => p

def afterAll (p : Past) (c : Clock) : List Update → Past
  | [] => p
  | u :: us => (p.after c u).afterAll (c.apply u) us

theorem total_after_wrap (p : Past) (c : Clock) (multiplier : UInt32) :
    (p.after c (.wrap multiplier)).total = p.total + c.jump multiplier := by
  simp only [total, after, List.foldl_append, List.foldl_cons, List.foldl_nil]

theorem jump_le_of_after_wrap {p : Past} {c : Clock} {multiplier : UInt32} {bound : Int}
    (h : ∀ jump ∈ (p.after c (.wrap multiplier)).jumps, jump ≤ bound) :
    c.jump multiplier ≤ bound ∧ ∀ jump ∈ p.jumps, jump ≤ bound := by
  refine ⟨h _ (List.mem_append_right _ (List.mem_singleton_self _)), ?_⟩
  intro jump hjump
  exact h jump (List.mem_append_left _ hjump)

end Past

def run (c : Clock) (updates : List Update) : Clock :=
  updates.foldl apply c

/-- What has happened to a clock in several updates. -/
def past (c : Clock) (updates : List Update) : Past :=
  ({} : Past).afterAll c updates

/-- The base of a clock is what its wrap markers leave within an epoch, and its epoch is their count. -/
structure Counts (c : Clock) (p : Past) : Prop where
  wrapUnit_pos : 0 < c.wrapUnit
  wrapUnit_le : c.wrapUnit ≤ maxTime
  base_nonneg : 0 ≤ c.base
  base_le : c.base ≤ c.current
  current_le : c.current ≤ maxTime
  last_nonneg : 0 ≤ c.last
  base_eq : c.base = p.total % epochLength
  epoch_bmod : c.epoch = Int.bmod p.ends 0x100000000
  /-- A marker ends one epoch at most, so a longer jump would lose whole epochs. -/
  ends_total : (∀ jump ∈ p.jumps, jump ≤ epochLength) →
    p.ends * epochLength + c.base = p.total

/-- The parts of a clock add up to what its wrap markers moved it on by. -/
structure Sums (c : Clock) (p : Past) : Prop extends c.Counts p where
  epoch_eq : c.epoch = p.ends
  total_eq : (∀ jump ∈ p.jumps, jump ≤ epochLength) →
    c.epoch * epochLength + c.base = p.total

/-- Whatever a clock computes next fits the place it is kept in. -/
structure Exact (c : Clock) (ticks multiplier : UInt32) : Prop where
  /-- Bounding the ticks before they are added makes no difference. -/
  current_tick : (c.tick ticks).current = min (c.base + ticks.toNat) maxTime
  jump_wide : InBits 64 (c.jump multiplier)
  wrapSum_wide : InBits 64 (c.wrapSum multiplier)
  excess_wide : InBits 64 (c.wrapSum multiplier - maxTime)
  rest_wide : InBits 64 (c.wrapSum multiplier - epochLength)
  rest_narrow : c.endsEpoch multiplier →
    0 ≤ c.wrapSum multiplier - epochLength ∧
      InBits 32 ((c.wrapSum multiplier - epochLength) % epochLength)
  /-- Keeping the low 32 bits of the sum makes no difference. -/
  base_narrow : c.endsEpoch multiplier = false →
    InBits 32 (c.wrapSum multiplier) ∧ (c.wrap multiplier).base = c.wrapSum multiplier
  epoch_narrow : InBits 32 (c.wrap multiplier).epoch

theorem wrapSum_le {c : Clock} {multiplier : UInt32} (hends : c.endsEpoch multiplier = false) :
    c.wrapSum multiplier ≤ maxTime :=
  Int.le_of_not_gt (of_decide_eq_false hends)

namespace Counts

variable {c : Clock} {p : Past}

theorem jump_nonneg (h : c.Counts p) (multiplier : UInt32) : 0 ≤ c.jump multiplier :=
  Int.mul_nonneg (Int.le_of_lt h.wrapUnit_pos) (Int.natCast_nonneg _)

theorem jump_le (h : c.Counts p) (multiplier : UInt32) :
    c.jump multiplier ≤ maxTime * (2 ^ 32 - 1) := by
  have hlt := multiplier.toNat_lt
  have hmultiplier : (multiplier.toNat : Int) ≤ 2 ^ 32 - 1 := by omega
  exact Int.mul_le_mul h.wrapUnit_le hmultiplier (Int.natCast_nonneg _) (by decide)

theorem base_le_maxTime (h : c.Counts p) : c.base ≤ maxTime :=
  Int.le_trans h.base_le h.current_le

theorem wrapSum_nonneg (h : c.Counts p) (multiplier : UInt32) : 0 ≤ c.wrapSum multiplier :=
  Int.add_nonneg h.base_nonneg (h.jump_nonneg multiplier)

theorem bmod_wrapSum (h : c.Counts p) {multiplier : UInt32}
    (hends : c.endsEpoch multiplier = false) :
    Int.bmod (c.wrapSum multiplier) 0x100000000 = c.wrapSum multiplier := by
  have hnonneg := h.wrapSum_nonneg multiplier
  have hle := wrapSum_le hends
  simp only [maxTime] at hle
  rw [Int.bmod_eq_of_le] <;> omega

theorem tick (h : c.Counts p) (ticks : UInt32) : (c.tick ticks).Counts (p.after c (.tick ticks)) := by
  have hbase := h.base_nonneg
  have hle := h.base_le_maxTime
  have hticks : 0 ≤ (ticks.toNat : Int) := Int.natCast_nonneg _
  have hmax : 0 ≤ maxTime := by decide
  exact ⟨h.wrapUnit_pos, h.wrapUnit_le, hbase, by simp only [Clock.tick]; omega,
    Int.min_le_right .., Int.le_trans hbase h.base_le, h.base_eq, h.epoch_bmod, h.ends_total⟩

/-- A marker that ends the epoch leaves the remainder, and loses no more than one epoch if it moves
the time on by no more. -/
theorem wrap_ends (h : c.Counts p) {multiplier : UInt32} (hends : c.endsEpoch multiplier) :
    (c.wrap multiplier).Counts (p.after c (.wrap multiplier)) := by
  have hge := endsEpoch_iff.1 hends
  have hle := h.base_le_maxTime
  have hbase := h.base_eq
  have hsum : c.wrapSum multiplier = c.base + c.jump multiplier := rfl
  have htotal := p.total_after_wrap c multiplier
  have hlength := epochLength_pos
  have hrest : 0 ≤ (c.wrapSum multiplier - epochLength) % epochLength ∧
      (c.wrapSum multiplier - epochLength) % epochLength ≤ maxTime := by
    simp only [epochLength, maxTime]
    omega
  rw [Clock.wrap, if_pos hends]
  refine ⟨h.wrapUnit_pos, h.wrapUnit_le, hrest.1, Int.le_refl _, hrest.2, hrest.1, ?_, ?_, ?_⟩
  · rw [htotal, hsum]
    simp only [epochLength] at hbase ⊢
    omega
  · simp only [Past.after, hends, Bool.toNat_true, Int.natCast_add, Int.natCast_one]
    rw [h.epoch_bmod, Int.bmod_add_bmod]
  · intro hjumps
    obtain ⟨hjump, hearlier⟩ := Past.jump_le_of_after_wrap hjumps
    have hwhole := h.ends_total hearlier
    rw [htotal, hsum]
    rw [hsum] at hge
    simp only [Past.after, hends, Bool.toNat_true, epochLength, maxTime] at hge hle hjump hwhole ⊢
    omega

theorem wrap_within (h : c.Counts p) {multiplier : UInt32}
    (hends : c.endsEpoch multiplier = false) :
    (c.wrap multiplier).Counts (p.after c (.wrap multiplier)) := by
  have hkept := h.bmod_wrapSum hends
  have hle := wrapSum_le hends
  have hbase := h.base_eq
  have hsum : c.wrapSum multiplier = c.base + c.jump multiplier := rfl
  have hnonneg := h.wrapSum_nonneg multiplier
  have htotal := p.total_after_wrap c multiplier
  rw [Clock.wrap, hends, if_neg (by decide), hkept]
  refine ⟨h.wrapUnit_pos, h.wrapUnit_le, hnonneg, Int.le_refl _, hle,
    Int.le_trans h.base_nonneg h.base_le, ?_, ?_, ?_⟩
  · rw [htotal]
    simp only [epochLength, maxTime] at hbase hle ⊢
    omega
  · simp only [Past.after, hends, Bool.toNat_false]
    exact h.epoch_bmod
  · intro hjumps
    obtain ⟨-, hearlier⟩ := Past.jump_le_of_after_wrap hjumps
    have hwhole := h.ends_total hearlier
    rw [htotal, hsum]
    simp only [Past.after, hends, Bool.toNat_false, Nat.add_zero]
    omega

theorem wrap (h : c.Counts p) (multiplier : UInt32) :
    (c.wrap multiplier).Counts (p.after c (.wrap multiplier)) := by
  cases hends : c.endsEpoch multiplier with
  | true => exact h.wrap_ends hends
  | false => exact h.wrap_within hends

theorem reset (h : c.Counts p) : c.reset.Counts (p.after c .reset) where
  wrapUnit_pos := h.wrapUnit_pos
  wrapUnit_le := h.wrapUnit_le
  base_nonneg := Int.le_refl 0
  base_le := Int.le_refl 0
  current_le := show (0 : Int) ≤ maxTime by decide
  last_nonneg := Int.le_refl 0
  base_eq := rfl
  epoch_bmod := by simp [Clock.reset, Past.after]
  ends_total := by simp [Clock.reset, Past.after, Past.total]

theorem deadline (h : c.Counts p) (deadline : Option Int) : { c with deadline }.Counts p :=
  ⟨h.wrapUnit_pos, h.wrapUnit_le, h.base_nonneg, h.base_le, h.current_le, h.last_nonneg, h.base_eq,
    h.epoch_bmod, h.ends_total⟩

theorem arm (h : c.Counts p) (interval : Int) : (c.arm interval).Counts p := by
  simp only [Clock.arm]
  split
  · exact h
  · exact h.deadline _

theorem postpone (h : c.Counts p) (interval : Int) : (c.postpone interval).Counts p := by
  simp only [Clock.postpone]
  split
  · split
    · exact h.deadline _
    · exact h
  · exact h

theorem apply (h : c.Counts p) (u : Update) : (c.apply u).Counts (p.after c u) := by
  cases u with
  | tick ticks => exact h.tick ticks
  | wrap multiplier => exact h.wrap multiplier
  | reset => exact h.reset
  | arm interval => exact h.arm interval
  | disarm => exact h.deadline none
  | postpone interval => exact h.postpone interval

theorem run (h : c.Counts p) (updates : List Update) : (c.run updates).Counts (p.afterAll c updates) := by
  induction updates generalizing c p with
  | nil => exact h
  | cons u us ih => exact ih (h.apply u)

theorem sums (h : c.Counts p) (hends : p.ends < 2 ^ 31) : c.Sums p := by
  have hepoch : c.epoch = p.ends := by
    rw [h.epoch_bmod]
    exact Int.bmod_eq_of_le (by omega) (by omega)
  exact { toCounts := h, epoch_eq := hepoch, total_eq := fun hjumps => hepoch ▸ h.ends_total hjumps }

/-- What a clock computes next is bounded by the largest jump, on top of a base within the epoch. -/
theorem exact (h : c.Counts p) (hends : p.ends < 2 ^ 31 - 1) (ticks multiplier : UInt32) :
    c.Exact ticks multiplier := by
  have hbase := h.base_nonneg
  have hle := h.base_le_maxTime
  have hjump := h.jump_nonneg multiplier
  have hjump_le := h.jump_le multiplier
  have hsum : c.wrapSum multiplier = c.base + c.jump multiplier := rfl
  simp only [maxTime] at hle hjump_le
  refine ⟨?_, ?_, ?_, ?_, ?_, ?_, ?_, ?_⟩
  · simp only [Clock.tick, maxTime]
    omega
  · simp only [InBits]
    omega
  · simp only [InBits]
    omega
  · simp only [InBits, maxTime]
    omega
  · simp only [InBits, epochLength]
    omega
  · intro hlast
    have hge := endsEpoch_iff.1 hlast
    simp only [InBits, epochLength] at hge ⊢
    omega
  · intro hwithin
    have hkept := h.bmod_wrapSum hwithin
    have hsum_le := wrapSum_le hwithin
    simp only [maxTime] at hsum_le
    refine ⟨by simp only [InBits]; omega, ?_⟩
    rw [Clock.wrap, hwithin, if_neg (by decide), hkept]
  · have hcount : (p.after c (.wrap multiplier)).ends ≤ p.ends + 1 := by
      simp only [Past.after]
      have := (c.endsEpoch multiplier).toNat_le
      omega
    have hnext := ((h.wrap multiplier).sums (by omega)).epoch_eq
    simp only [InBits]
    omega

end Counts

theorem counts_start {wrapUnit : Int} (hpos : 0 < wrapUnit) (hle : wrapUnit ≤ maxTime)
    (order : TimeOrder) : (start wrapUnit order).Counts {} where
  wrapUnit_pos := hpos
  wrapUnit_le := hle
  base_nonneg := Int.le_refl 0
  base_le := Int.le_refl 0
  current_le := show (0 : Int) ≤ maxTime by decide
  last_nonneg := Int.le_refl 0
  base_eq := rfl
  epoch_bmod := show (0 : Int) = Int.bmod 0 0x100000000 by decide
  ends_total := fun _ => rfl

/-- Every clock adds up, and computes exactly, for as long as its epoch can be counted. -/
theorem run_sums {wrapUnit : Int} (hpos : 0 < wrapUnit) (hle : wrapUnit ≤ maxTime)
    (order : TimeOrder) (updates : List Update)
    (hends : ((start wrapUnit order).past updates).ends < 2 ^ 31 - 1) :
    ((start wrapUnit order).run updates).Sums ((start wrapUnit order).past updates) ∧
      ∀ ticks multiplier, ((start wrapUnit order).run updates).Exact ticks multiplier := by
  have hcounts : ((start wrapUnit order).run updates).Counts ((start wrapUnit order).past updates) :=
    (counts_start hpos hle order).run updates
  exact ⟨hcounts.sums (by omega), hcounts.exact hends⟩

/-- A counter that steps over the end of an epoch, is reset, and then lands on the end exactly. -/
theorem run_sums_over_two_ends :
    ((start 0x8000 .strict).past
        [.tick 100, .wrap 0xffff, .wrap 3, .tick 5, .reset, .wrap 0x10000, .wrap 1]).ends = 1 ∧
      ((start 0x8000 .strict).run
        [.tick 100, .wrap 0xffff, .wrap 3, .tick 5, .reset, .wrap 0x10000, .wrap 1]).Sums
        { jumps := [0x80000000, 0x8000], ends := 1 } ∧
      ((start 0x8000 .strict).run
        [.tick 100, .wrap 0xffff, .wrap 3, .tick 5, .reset, .wrap 0x10000, .wrap 1]).Exact
        0xffffffff 0xffffffff := by
  have h := run_sums (show 0 < 0x8000 by decide) (show 0x8000 ≤ maxTime by decide) .strict
    [.tick 100, .wrap 0xffff, .wrap 3, .tick 5, .reset, .wrap 0x10000, .wrap 1] (by decide)
  exact ⟨by decide, h.1, h.2 0xffffffff 0xffffffff⟩

end Clock

end EventCamera
