import EventCamera.Wire.Dvs128
import EventCamera.Wire.DvXplorer
import Mathlib.Algebra.Group.Int.Defs
import Mathlib.Algebra.Group.Nat.Defs

/-! # What the cameras say about time

A unit of either camera holds at most one tick, wrap or reset. A wrap and a reset fill their unit;
whatever stands beside a tick leaves the clock alone. -/

namespace EventCamera

inductive Camera where
  | dvs128
  | dvXplorer (geometry : Geometry)

def Camera.device : Camera → Device
  | .dvs128 => Wire.Dvs128.device
  | .dvXplorer g => Wire.DvXplorer.device g

/-- What a unit says about time. -/
inductive Mark where
  | silent
  /-- The value of the tick counter. -/
  | tick (ticks : Nat)
  /-- The tick counter started over, this many times. -/
  | turns (count : Nat)
  /-- The time starts over. -/
  | reset
  deriving DecidableEq

/-- What the timestamp word of a DVS128 says: its top bit marks a wrap, and the next one a reset. -/
def Wire.Dvs128.mark : List UInt8 → Mark
  | _ :: _ :: low :: high :: _ =>
    let time := word low high
    if 2 ^ 15 ≤ time then .turns 1
    else if 2 ^ 14 ≤ time then .reset
    else .tick time
  | _ => .silent

/-- What a word of a DVXplorer says: its upper half are ticks, the last 4096 words of its lower half
are wraps, and the word one is a reset. -/
def Wire.DvXplorer.mark : List UInt8 → Mark
  | low :: high :: _ =>
    let unit := word low high
    if 2 ^ 15 ≤ unit then .tick (unit - 2 ^ 15)
    else if 7 * 2 ^ 12 ≤ unit then .turns (unit - 7 * 2 ^ 12)
    else if unit = 1 then .reset
    else .silent
  | _ => .silent

/-- What a unit of a camera says about time. -/
def Camera.mark : Camera → List UInt8 → Mark
  | .dvs128 => Wire.Dvs128.mark
  | .dvXplorer _ => Wire.DvXplorer.mark

/-- The codes that say it. -/
def Mark.codes : Mark → List Code
  | .silent => []
  | .tick ticks => [.tick (.ofNat ticks)]
  | .turns count => [.wrap (.ofNat count)]
  | .reset => [.reset]

/-- A code that neither moves the clock nor adds a marker of it. -/
def Code.Plain : Code → Prop
  | .tick _ | .wrap _ | .reset => False
  | .special kind _ => kind ≠ .timestampWrap ∧ kind ≠ .timestampReset
  | .pixel .. | .group .. | .composite .. => True

/-- Whether nothing else stands in the unit. -/
def Mark.fillsUnit : Mark → Bool
  | .turns _ | .reset => true
  | .silent | .tick _ => false

/-- The codes of a unit are those of its mark, and plain ones beside it if the mark leaves room for
them. -/
structure Mark.Leads (m : Mark) (codes : List Code) (body : List Code) : Prop where
  codes_eq : codes = m.codes ++ body
  plain : ∀ code ∈ body, code.Plain
  alone : m.fillsUnit → body = []

namespace Mark

theorem leads_alone (m : Mark) : m.Leads m.codes [] :=
  ⟨(List.append_nil _).symm, List.forall_mem_nil _, fun _ => rfl⟩

theorem leads_beside {m : Mark} {body : List Code} (h : m.fillsUnit = false)
    (hplain : ∀ code ∈ body, code.Plain) : m.Leads (m.codes ++ body) body :=
  ⟨rfl, hplain, fun hfills => Bool.noConfusion (h.symm.trans hfills)⟩

end Mark

namespace Wire

theorem field_eq (n low width : Nat) : field n low width = n / 2 ^ low % 2 ^ width := by
  rw [field, Nat.shiftRight_eq_div_pow, Nat.one_shiftLeft]

theorem word_lt (low high : UInt8) : word low high < 2 ^ 16 := by
  have := low.toNat_lt
  have := high.toNat_lt
  simp only [word]
  omega

theorem flag_iff {n index : Nat} (h : n < 2 ^ (index + 1)) : flag n index ↔ 2 ^ index ≤ n := by
  have hpos := Nat.two_pow_pos index
  have hlt : n / 2 ^ index < 2 := (Nat.div_lt_iff_lt_mul hpos).2 (by omega)
  have hle : 1 ≤ n / 2 ^ index ↔ 1 * 2 ^ index ≤ n := Nat.le_div_iff_mul_le hpos
  rw [flag, field_eq, decide_eq_true_iff]
  generalize n / 2 ^ index = q at hlt hle ⊢
  omega

theorem Dvs128.leads (unit : List UInt8) : ∃ body, (mark unit).Leads (codes unit) body := by
  match unit with
  | addressLow :: addressHigh :: low :: high :: _ =>
    simp only [mark, codes, flag_iff (word_lt low high)]
    split
    · exact ⟨[], (Mark.turns 1).leads_alone⟩
    · rename_i hlt
      simp only [flag_iff (Nat.lt_of_not_le hlt)]
      split
      · exact ⟨[], Mark.reset.leads_alone⟩
      · refine ⟨[_], Mark.leads_beside rfl (List.forall_mem_singleton.2 ?_)⟩
        split
        · simp [Code.Plain]
        · trivial
  | [] | [_] | [_, _] | [_, _, _] => exact ⟨[], Mark.silent.leads_alone⟩

namespace DvXplorer

theorem special_plain (a : Address) {data : Nat} (h : data ≠ 1) :
    ∀ code ∈ (a.special data).codes, code.Plain := by
  unfold Address.special
  split
  case h_2 => exact absurd rfl h
  all_goals simp [Code.Plain]

theorem moveColumn_plain (g : Geometry) (a : Address) (data : Nat) :
    ∀ code ∈ (a.moveColumn g data).codes, code.Plain := by
  unfold Address.moveColumn
  by_cases hstart : flag data 11
  all_goals
    simp only [hstart, if_true]
    split <;> simp [Code.Plain]

theorem moveRows_plain (g : Geometry) (a : Address) (data : Nat) :
    ∀ code ∈ (a.moveRows g data).codes, code.Plain := by
  unfold Address.moveRows
  simp only
  split
  · exact nofun
  · split <;> exact nofun

theorem misc_plain (a : Address) (data : Nat) : ∀ code ∈ (a.misc data).codes, code.Plain := by
  unfold Address.misc
  split <;> simp [Code.Plain]

end DvXplorer

/-- A unit of a DVXplorer that says something about time says nothing else. -/
theorem DvXplorer.codes_of_mark (g : Geometry) (s : State) {unit : List UInt8}
    (h : mark unit ≠ .silent) : (classify g s unit).codes = (mark unit).codes := by
  match unit with
  | low :: high :: _ =>
    have hword := word_lt low high
    simp only [mark] at h
    simp only [mark, classify, Address.read, flag_iff hword]
    by_cases htick : 2 ^ 15 ≤ word low high
    · have hfield : field (word low high) 0 15 = word low high - 2 ^ 15 := by
        rw [field_eq]
        omega
      rw [if_pos htick, if_pos htick, hfield]
      rfl
    · rw [if_neg htick] at h
      rw [if_neg htick, if_neg htick]
      have hdata : field (word low high) 0 12 = word low high % 2 ^ 12 := by
        rw [field_eq]
        omega
      have hcode : field (word low high) 12 3 = word low high / 2 ^ 12 := by
        rw [field_eq]
        omega
      rw [hdata, hcode]
      generalize word low high = w at htick h ⊢
      by_cases hturns : 7 * 2 ^ 12 ≤ w
      · have hcode : w / 2 ^ 12 = 7 := by omega
        have hdata : w % 2 ^ 12 = w - 7 * 2 ^ 12 := by omega
        rw [if_pos hturns, hcode, hdata]
        rfl
      · rw [if_neg hturns] at h ⊢
        by_cases hreset : w = 1
        · subst hreset
          rfl
        · exact absurd (if_neg hreset) h
  | [] | [_] => exact absurd rfl h

theorem DvXplorer.plain_of_silent (g : Geometry) (s : State) {unit : List UInt8}
    (h : mark unit = .silent) : ∀ code ∈ (classify g s unit).codes, code.Plain := by
  match unit with
  | low :: high :: _ =>
    have hword := word_lt low high
    simp only [mark] at h
    simp only [classify, Address.read, flag_iff hword]
    have hdata : field (word low high) 0 12 = word low high % 2 ^ 12 := by
      rw [field_eq]
      omega
    have hcode : field (word low high) 12 3 = word low high / 2 ^ 12 % 2 ^ 3 := by
      rw [field_eq]
    rw [hdata, hcode]
    generalize word low high = w at h ⊢
    split at h
    · cases h
    · rename_i htick
      rw [if_neg htick]
      split at h
      · cases h
      · split at h
        · cases h
        · split
          · exact special_plain s.address (by omega)
          · exact moveColumn_plain g s.address _
          · exact List.forall_mem_singleton.2 trivial
          · exact List.forall_mem_singleton.2 trivial
          · exact moveRows_plain g s.address _
          · exact misc_plain s.address _
          · omega
          · exact List.forall_mem_nil _
  | [] | [_] => exact List.forall_mem_nil _

theorem DvXplorer.leads (g : Geometry) (s : State) (unit : List UInt8) :
    ∃ body, (mark unit).Leads (classify g s unit).codes body := by
  by_cases h : mark unit = .silent
  · rw [h]
    exact ⟨_, Mark.leads_beside rfl (plain_of_silent g s h)⟩
  · rw [codes_of_mark g s h]
    exact ⟨[], (mark unit).leads_alone⟩

theorem DvXplorer.time_of_complete {s : State} {step : CompositeStep} {time : Int}
    {event : CompositeEvent} (h : (compose s step time).outcome = .complete event) :
    ∃ sample : Imu6Event, event = .imu6 sample ∧ sample.time = time := by
  unfold compose Imu.apply at h
  split at h
  case h_5 =>
    by_cases hcount : s.imu.scratch.count = sampleBytes
    · simp only [ImuScratch.outcome, ImuScratch.finish, if_pos hcount] at h
      cases h
      exact ⟨_, rfl, rfl⟩
    · simp only [ImuScratch.outcome, ImuScratch.finish, if_neg hcount] at h
      cases h
  all_goals cases h

end Wire

namespace Camera

theorem leads (c : Camera) (s : c.device.State) (unit : List UInt8) :
    ∃ body, (c.mark unit).Leads (c.device.classify s unit).codes body := by
  cases c with
  | dvs128 => exact Wire.Dvs128.leads unit
  | dvXplorer g => exact Wire.DvXplorer.leads g s unit

theorem codes_of_fillsUnit {c : Camera} {unit : List UInt8} {m : Mark} (hm : c.mark unit = m)
    (hfills : m.fillsUnit) (s : c.device.State) : (c.device.classify s unit).codes = m.codes := by
  obtain ⟨body, hleads⟩ := c.leads s unit
  rw [hm] at hleads
  rw [hleads.codes_eq, hleads.alone hfills, List.append_nil]

theorem ticks_lt {c : Camera} {unit : List UInt8} {ticks : Nat} (h : c.mark unit = .tick ticks) :
    (ticks : Int) < c.device.wrapUnit := by
  cases c with
  | dvs128 =>
    change (ticks : Int) < 0x4000
    simp only [mark, Wire.Dvs128.mark] at h
    split at h
    · split at h
      · cases h
      · split at h <;> cases h
        omega
    · cases h
  | dvXplorer g =>
    change (ticks : Int) < 0x8000
    simp only [mark, Wire.DvXplorer.mark] at h
    split at h
    · rename_i low high _
      have := Wire.word_lt low high
      split at h
      · have := Mark.tick.inj h
        omega
      · split at h
        · cases h
        · split at h <;> cases h
    · cases h

theorem count_lt {c : Camera} {unit : List UInt8} {count : Nat} (h : c.mark unit = .turns count) :
    count < 2 ^ 12 := by
  cases c with
  | dvs128 =>
    simp only [mark, Wire.Dvs128.mark] at h
    split at h
    · split at h
      · cases h
        decide
      · split at h <;> cases h
    · cases h
  | dvXplorer g =>
    simp only [mark, Wire.DvXplorer.mark] at h
    split at h
    · split at h
      · cases h
      · split at h
        · have := Mark.turns.inj h
          omega
        · split at h <;> cases h
    · cases h

/-- A turn of the counter is a whole part of an epoch. -/
theorem wrapUnit_spec (c : Camera) :
    0 < c.device.wrapUnit ∧ c.device.wrapUnit ≤ 2 ^ 15 ∧ c.device.wrapUnit ∣ epochLength := by
  cases c with
  | dvs128 => decide
  | dvXplorer g =>
    change (0 : Int) < 0x8000 ∧ (0x8000 : Int) ≤ 2 ^ 15 ∧ (0x8000 : Int) ∣ epochLength
    decide

theorem time_of_complete {c : Camera} {s : c.device.State} {kind : CompositeKind}
    {step : CompositeStep} {time : Int} {event : CompositeEvent}
    (h : (c.device.compose s kind step time).outcome = .complete event) :
    event.kind ≠ .special ∧ event.kind.time event.record = time := by
  cases c with
  | dvs128 => cases h
  | dvXplorer g =>
    obtain ⟨sample, rfl, rfl⟩ := Wire.DvXplorer.time_of_complete h
    exact ⟨nofun, rfl⟩

end Camera

end EventCamera
