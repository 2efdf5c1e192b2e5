import EventCamera.Proofs.Conservation
import EventCamera.Proofs.Marking

/-! # Resets part the events

Each reset of a camera is handed on once, alone in its container. Before that container come the
events of the units before the reset, and after it those of the units after it. -/

namespace EventCamera

/-! ## Numbering -/

/-- The events of a kind in sealed containers, each with the number of reset containers before it,
which are counted from `n` on. -/
def numbered (k : EventKind) : List Sealed → (n : Nat) → List ((k.Record × Int) × Nat)
  | [], _ => []
  | .data c :: rest, n => (c.stamped k).map (·, n) ++ numbered k rest n
  | .reset _ :: rest, n => numbered k rest (n + 1)

/-- The number of reset containers. -/
def resetCount (containers : List Sealed) : Nat :=
  containers.countP Sealed.isReset

@[simp] theorem resetCount_data (c : Container) (rest : List Sealed) :
    resetCount (.data c :: rest) = resetCount rest :=
  List.countP_cons_of_neg Bool.false_ne_true

@[simp] theorem resetCount_reset (c : Container) (rest : List Sealed) :
    resetCount (.reset c :: rest) = resetCount rest + 1 :=
  List.countP_cons_of_pos rfl

theorem resetCount_append (before after : List Sealed) :
    resetCount (before ++ after) = resetCount before + resetCount after :=
  List.countP_append

theorem numbered_append (k : EventKind) (before after : List Sealed) (n : Nat) :
    numbered k (before ++ after) n =
      numbered k before n ++ numbered k after (n + resetCount before) := by
  induction before generalizing n with
  | nil => rfl
  | cons s before ih =>
    cases s with
    | data c =>
      simp only [List.cons_append, numbered, ih, resetCount_data, List.append_assoc]
    | reset c =>
      simp only [List.cons_append, numbered, ih, resetCount_reset]
      rw [Nat.add_right_comm n 1, Nat.add_assoc n]

theorem map_fst_numbered (k : EventKind) (containers : List Sealed) (n : Nat) :
    (numbered k containers n).map Prod.fst = sealedEvents containers k := by
  induction containers generalizing n with
  | nil => rfl
  | cons s containers ih =>
    cases s with
    | data c =>
      simp only [numbered, List.map_append, List.map_map, ih]
      refine congrArg (· ++ _) ?_
      exact List.map_id _
    | reset c => exact ih (n + 1)

theorem numbered_of_not_isReset {between : List Sealed} (h : ∀ s ∈ between, s.isReset = false)
    (k : EventKind) (n : Nat) :
    numbered k between n = (sealedEvents between k).map (·, n) := by
  induction between with
  | nil => rfl
  | cons s between ih =>
    obtain ⟨hfirst, hrest⟩ := List.forall_mem_cons.1 h
    cases s with
    | data c =>
      simp only [numbered, ih hrest, sealedEvents, List.flatMap_cons, List.map_append]
      rfl
    | reset c => cases hfirst

theorem le_of_mem_numbered {k : EventKind} {containers : List Sealed} {n : Nat}
    {e : (k.Record × Int) × Nat} (he : e ∈ numbered k containers n) :
    n ≤ e.2 ∧ e.2 ≤ n + resetCount containers := by
  induction containers generalizing n with
  | nil => cases he
  | cons s containers ih =>
    cases s with
    | data c =>
      rcases List.mem_append.1 he with he | he
      · obtain ⟨_, -, rfl⟩ := List.mem_map.1 he
        exact ⟨Nat.le_refl n, Nat.le_add_right ..⟩
      · exact ih he
    | reset c =>
      have hle := ih (n := n + 1) he
      rw [resetCount_reset]
      omega

/-! ## Steps -/

theorem Sealing.numbered_handedOn (s : Sealing) (k : EventKind) (n : Nat) :
    numbered k s.handedOn n = (s.data.stamped k).map (·, n) := by
  have hreset (n : Nat) : numbered k (s.reset?.toList.map .reset) n = [] := by
    cases s.reset? <;> rfl
  rw [handedOn, numbered_append, hreset, List.append_nil]
  by_cases he : s.data.isEmpty
  · rw [if_pos he, Container.stamped_of_isEmpty he]
    rfl
  · rw [if_neg he]
    exact List.append_nil _

theorem Sealing.resetCount_handedOn (s : Sealing) :
    resetCount s.handedOn = if s.reset?.isSome then 1 else 0 := by
  have hdata : resetCount (if s.data.isEmpty then [] else [.data s.data]) = 0 := by
    split <;> rfl
  rw [handedOn, resetCount_append, hdata, Nat.zero_add]
  cases s.reset? <;> rfl

theorem Sealing.reset_mem_handedOn {s : Sealing} {c : Container} (h : .reset c ∈ s.handedOn) :
    s.reset? = some c := by
  rcases List.mem_append.1 h with h | h
  · split at h
    · cases h
    · cases List.mem_singleton.1 h
  · obtain ⟨c', hc', he⟩ := List.mem_map.1 h
    cases he
    exact Option.mem_toList.1 hc'

namespace Decoder

variable {dev : Device} {a : Applied dev} {s : Settled dev}

/-- A step seals one reset container if a reset was forced, and none else. -/
theorem Made.resetCount_handedOn {forced : Option Forced} (h : Made a s) (hok : s.result.isOk)
    (ha : a.result = .ok forced) :
    resetCount s.handedOn = if forced = some .reset then 1 else 0 := by
  cases h.completed hok with
  | kept ha' _ hr =>
    obtain rfl := Except.ok.inj (ha.symm.trans ha')
    rw [Settled.handedOn_of_ok hr]
    rfl
  | sealed ha' ht hr =>
    obtain rfl := Except.ok.inj (ha.symm.trans ha')
    rw [Settled.handedOn_of_ok hr, Option.elim_some, Sealing.resetCount_handedOn, ht.reset_eq]
    split <;> rfl

theorem Made.numbered_handedOn (h : Made a s) (k : EventKind) (n : Nat) :
    numbered k s.handedOn n ++ (s.decoder.buffer k).stamped.map (·, n + resetCount s.handedOn) =
      (a.decoder.buffer k).stamped.map (·, n) := by
  have hemptied {sealing : Sealing}
      (he : a.decoder.collector.Emptied sealing s.decoder.collector) (count : Nat) :
      numbered k sealing.handedOn n ++ (s.decoder.buffer k).stamped.map (·, n + count) =
        (a.decoder.buffer k).stamped.map (·, n) := by
    have hfresh : (s.decoder.buffer k).stamped = [] := Buffer.isEmpty_iff.1 (he.fresh_isEmpty k)
    rw [Sealing.numbered_handedOn, he.stamped_data, hfresh, List.map_nil, List.append_nil]
    rfl
  cases h with
  | failed e hd _ hnothing =>
    rw [hnothing, hd]
    rfl
  | kept _ hd hr =>
    rw [Settled.handedOn_of_ok hr, hd]
    rfl
  | sealed _ ht hr =>
    rw [Settled.handedOn_of_ok hr]
    exact hemptied ht.toEmptied _
  | cut e _ he _ _ _ heq =>
    rw [heq]
    exact hemptied he _

/-- Only a reset that does not fail seals a reset container, with the time of the clock after it. -/
theorem Made.reset_of_mem (h : Made a s) {c : Container} (hc : .reset c ∈ s.handedOn) :
    a.result = .ok (some .reset) ∧ c = .reset s.decoder.clock.epoch s.decoder.clock.full := by
  cases h with
  | failed e _ _ hnothing =>
    rw [hnothing] at hc
    cases hc
  | kept _ _ hr =>
    rw [Settled.handedOn_of_ok hr] at hc
    cases hc
  | cut e _ _ _ _ hnone heq =>
    rw [heq] at hc
    cases hnone.symm.trans (Sealing.reset_mem_handedOn hc)
  | sealed ha ht hr =>
    rw [Settled.handedOn_of_ok hr] at hc
    have heq := ht.reset_eq.symm.trans (Sealing.reset_mem_handedOn hc)
    split at heq
    · rename_i hforced
      exact ⟨hforced ▸ ha, (Option.some.inj heq).symm⟩
    · cases heq

theorem Made.eq_reset (h : Made a s) {c : Container} (hc : .reset c ∈ s.handedOn) :
    ∃ epoch highest, c = .reset epoch highest :=
  ⟨_, _, (h.reset_of_mem hc).2⟩

/-! ## Additions -/

theorem isReset_asked {d : Decoder dev} {code : Code}
    (hcode : ∀ data, code ≠ .special .timestampReset data) {k : EventKind} {r : k.Record}
    (hr : r ∈ d.asked code k) : k.isReset r = false := by
  have hpixels (records : List PolarityEvent) (hr : r ∈ only .polarity records k) :
      k.isReset r = false :=
    of_mem_only (P := fun k r => k.isReset r = false) (fun _ _ => rfl) hr
  cases code with
  | tick | reset => cases hr
  | wrap multiplier =>
    simp only [asked] at hr
    split at hr
    · exact of_mem_only (P := fun k r => k.isReset r = false)
        (List.forall_mem_singleton.2 rfl) hr
    · cases hr
  | pixel x y on => exact hpixels _ hr
  | group x base mask on => exact hpixels _ hr
  | special kind data =>
    refine of_mem_only (P := fun k r => k.isReset r = false) (List.forall_mem_singleton.2 ?_) hr
    cases kind with
    | timestampReset => exact absurd rfl (hcode data)
    | _ => rfl
  | composite kind step =>
    simp only [asked] at hr
    cases hevent : (dev.compose d.device kind step d.clock.current).outcome with
    | complete event =>
      rw [hevent] at hr
      cases event <;> exact of_mem_only (P := fun k r => k.isReset r = false)
        (List.forall_mem_singleton.2 rfl) hr
    | pending | ignored | mismatch =>
      rw [hevent] at hr
      cases hr

theorem isReset_additions {codes : List Code}
    (hcodes : ∀ code ∈ codes, ∀ data, code ≠ .special .timestampReset data)
    {past : List (List UInt8)} {d : Decoder dev} {k : EventKind} {a : Added k}
    (ha : a ∈ additions past codes d k) : k.isReset a.record = false := by
  induction codes generalizing d with
  | nil => cases ha
  | cons code codes ih =>
    obtain ⟨hcode, hcodes⟩ := List.forall_mem_cons.1 hcodes
    simp only [additions] at ha
    split at ha
    · cases ha
    · rcases List.mem_append.1 ha with ha | ha
      · obtain ⟨r, hr, rfl⟩ := List.mem_map.1 ha
        exact isReset_asked hcode hr
      · exact ih hcodes ha

end Decoder

theorem Mark.Leads.ne_reset {m : Mark} {codes body : List Code} (h : m.Leads codes body) :
    ∀ code ∈ codes, ∀ data, code ≠ .special .timestampReset data := by
  rintro code hcode data rfl
  rw [h.codes_eq] at hcode
  rcases List.mem_append.1 hcode with hcode | hcode
  · cases m <;> simp [Mark.codes] at hcode
  · exact (h.plain _ hcode).2 rfl

theorem Mark.forces_eq_reset_iff {m : Mark} {c : Clock} :
    m.forces c = some .reset ↔ m = .reset := by
  cases m with
  | silent | tick => exact ⟨nofun, nofun⟩
  | turns count =>
    refine ⟨fun h => ?_, nofun⟩
    simp only [forces] at h
    split at h <;> cases h
  | reset => exact ⟨fun _ => rfl, fun _ => rfl⟩

/-! ## Sessions -/

def Camera.resets (c : Camera) (units : List (List UInt8)) : Nat :=
  units.countP fun unit => c.mark unit = .reset

theorem Camera.resets_append_singleton (c : Camera) (units : List (List UInt8))
    (unit : List UInt8) :
    c.resets (units ++ [unit]) = c.resets units + if c.mark unit = .reset then 1 else 0 := by
  simp [resets, List.countP_append, List.countP_singleton]

namespace Ledger

variable {c : Camera} {b : Ledger c.device}

/-- There are as many reset containers as resets, and as many before an event as there were resets
before its unit. -/
structure SplitByResets (b : Ledger c.device) : Prop where
  resetCount_eq : resetCount b.sealed = c.resets b.units
  numbered_eq : ∀ k, numbered k b.sealed 0 ++
      (b.decoder.buffer k).stamped.map (·, c.resets b.units) =
    (b.added k).map fun a => (a.stamped, c.resets a.past)
  eq_reset : ∀ container, .reset container ∈ b.sealed →
    ∃ epoch highest, container = .reset epoch highest
  added : ∀ k, ∀ a ∈ b.added k, k.isReset a.record = false

/-- What a unit adds is numbered as the unit: with the resets up to it. A reset adds nothing. -/
theorem numbered_additions {m : Mark} {codes body : List Code} (h : m.Leads codes body)
    {past : List (List UInt8)} {d : Decoder c.device} {n : Nat}
    (hn : m ≠ .reset → c.resets past = n) (k : EventKind) :
    (Decoder.additions past codes d k).map (fun a => (a.stamped, n)) =
      (Decoder.additions past codes d k).map fun a => (a.stamped, c.resets a.past) := by
  by_cases hreset : m = .reset
  · subst hreset
    rw [h.codes_eq, h.alone rfl]
    rfl
  · refine List.map_congr_left fun a ha => ?_
    rw [(Decoder.mem_additions_leads h ha).1, hn hreset]

/-- A unit is counted as a reset if and only if it seals the container of one. -/
theorem resets_unit {unit : List UInt8} (hok : (b.decoder.make (.unit unit)).result.isOk) :
    c.resets (b.units ++ [unit]) =
      c.resets b.units + resetCount (b.decoder.make (.unit unit)).handedOn := by
  have hmade := b.decoder.make_made (.unit unit)
  obtain ⟨forced, hforced⟩ := hmade.exists_forced hok
  obtain ⟨body, hleads⟩ := c.leads b.decoder.device unit
  rw [c.resets_append_singleton, hmade.resetCount_handedOn hok hforced,
    Decoder.forced_forEach_leads hleads hforced]
  simp only [Mark.forces_eq_reset_iff]

theorem numbered_unit (unit : List UInt8) (k : EventKind) :
    ((b.decoder.moved (.unit unit)).decoder.buffer k).stamped.map (·, c.resets b.units) =
      (b.decoder.buffer k).stamped.map (·, c.resets b.units) ++
        (b.addedBy unit k).map fun a => (a.stamped, c.resets a.past) := by
  obtain ⟨body, hleads⟩ := c.leads b.decoder.device unit
  have hsame : c.mark unit ≠ .reset → c.resets (b.units ++ [unit]) = c.resets b.units := by
    intro hne
    rw [c.resets_append_singleton, if_neg hne, Nat.add_zero]
  rw [← numbered_additions hleads hsame k]
  refine (congrArg (List.map (·, c.resets b.units)) (b.stamped_applyUnit unit k)).trans ?_
  rw [List.map_append, List.map_map]
  rfl

theorem SplitByResets.numbered_make (h : b.SplitByResets) (m : Move) (k : EventKind) :
    numbered k (b.sealed ++ (b.decoder.make m).handedOn) 0 ++
        ((b.decoder.make m).decoder.buffer k).stamped.map
          (·, c.resets b.units + resetCount (b.decoder.make m).handedOn) =
      numbered k b.sealed 0 ++
        ((b.decoder.moved m).decoder.buffer k).stamped.map (·, c.resets b.units) := by
  rw [numbered_append, Nat.zero_add, h.resetCount_eq, List.append_assoc,
    (b.decoder.make_made m).numbered_handedOn]

theorem SplitByResets.advance (h : b.SplitByResets) {m : Move} (hok : (b.decoder.make m).result.isOk) :
    (b.advance m).SplitByResets := by
  have hmade := b.decoder.make_made m
  have hnumbered := h.numbered_make m
  have heq : ∀ container, .reset container ∈ b.sealed ++ (b.decoder.make m).handedOn →
      ∃ epoch highest, container = .reset epoch highest := by
    intro container hc
    rcases List.mem_append.1 hc with hc | hc
    · exact h.eq_reset container hc
    · exact hmade.eq_reset hc
  cases m with
  | rest =>
    have hnone : resetCount (b.decoder.make .rest).handedOn = 0 := hmade.resetCount_handedOn hok rfl
    simp only [hnone, Nat.add_zero] at hnumbered
    refine ⟨?_, fun k => (hnumbered k).trans (h.numbered_eq k), heq, h.added⟩
    exact (resetCount_append ..).trans (by rw [hnone, h.resetCount_eq]; rfl)
  | unit unit =>
    have hresets := resets_unit hok
    refine ⟨?_, fun k => ?_, heq, fun k a ha => ?_⟩
    · refine (resetCount_append ..).trans ?_
      rw [h.resetCount_eq]
      exact hresets.symm
    · change numbered k (b.sealed ++ (b.decoder.make (.unit unit)).handedOn) 0 ++
        ((b.decoder.make (.unit unit)).decoder.buffer k).stamped.map
          (·, c.resets (b.units ++ [unit])) = (b.added k ++ _).map _
      rw [hresets, hnumbered k, numbered_unit, ← List.append_assoc, h.numbered_eq k,
        List.map_append]
    · obtain ⟨body, hleads⟩ := c.leads b.decoder.device unit
      rcases List.mem_append.1 ha with ha | ha
      · exact h.added k a ha
      · exact Decoder.isReset_additions hleads.ne_reset ha

theorem SplitByResets.count (h : b.SplitByResets) (hs : List Handover) : (b.count hs).SplitByResets :=
  ⟨h.resetCount_eq, h.numbered_eq, h.eq_reset, h.added⟩

theorem splitByResets_start {settings : Settings} {d : Decoder c.device}
    (h : Decoder.start c.device settings = .ok d) : SplitByResets { decoder := d } := by
  refine ⟨rfl, fun k => ?_, nofun, nofun⟩
  rw [Buffer.isEmpty_iff.1 ((Decoder.start_ok h).isEmpty k)]
  rfl

/-- While no step fails, a run parts what it seals, whatever becomes of it. -/
theorem Succeeds.splitByResets {settings : Settings} {d : Decoder c.device} {moves : List Move}
    (h : Succeeds { decoder := d } moves) (hstart : Decoder.start c.device settings = .ok d)
    {hs : List Handover} (hend : b = (run { decoder := d } moves).count hs) : b.SplitByResets := by
  rw [hend]
  exact (h.induction (fun h hok => h.advance hok) (splitByResets_start hstart)).count _

theorem SplitByResets.numbered_split (h : b.SplitByResets) {before after : List Sealed} {r : Container}
    (hs : b.sealed = before ++ .reset r :: after) (k : EventKind) :
    (b.added k).map (fun a => (a.stamped, c.resets a.past)) =
        numbered k before 0 ++ (numbered k after (resetCount before + 1) ++
          (b.decoder.buffer k).stamped.map (·, c.resets b.units)) ∧
      (∀ e ∈ numbered k before 0, e.2 ≤ resetCount before) ∧
      ∀ e ∈ numbered k after (resetCount before + 1) ++
        (b.decoder.buffer k).stamped.map (·, c.resets b.units), resetCount before < e.2 := by
  refine ⟨?_, fun e he => ?_, fun e he => ?_⟩
  · rw [← h.numbered_eq k, hs, numbered_append, Nat.zero_add, List.append_assoc]
    rfl
  · have := (le_of_mem_numbered he).2
    omega
  · rcases List.mem_append.1 he with he | he
    · exact (le_of_mem_numbered he).1
    · obtain ⟨_, -, rfl⟩ := List.mem_map.1 he
      have hcount := h.resetCount_eq
      rw [hs, resetCount_append, resetCount_reset] at hcount
      simp only
      omega

/-- Before a reset container come the events of the units up to that reset. -/
theorem SplitByResets.before_eq (h : b.SplitByResets) {before after : List Sealed} {r : Container}
    (hs : b.sealed = before ++ .reset r :: after) (k : EventKind) :
    sealedEvents before k =
      ((b.added k).filter fun a => c.resets a.past ≤ resetCount before).map Added.stamped := by
  obtain ⟨heq, hbefore, hafter⟩ := h.numbered_split hs k
  have hall : (numbered k before 0).filter (fun e => e.2 ≤ resetCount before) =
      numbered k before 0 :=
    List.filter_eq_self.2 fun e he => decide_eq_true (hbefore e he)
  have hfilter := congrArg (List.filter fun e => e.2 ≤ resetCount before) heq
  rw [List.filter_map, List.filter_append, hall, List.filter_eq_nil_iff.2 fun e he hle =>
    Nat.not_lt.2 (of_decide_eq_true hle) (hafter e he), List.append_nil] at hfilter
  have hfst := congrArg (List.map Prod.fst) hfilter
  rw [List.map_map, map_fst_numbered] at hfst
  exact hfst.symm

/-- After a reset container come the events of the units after that reset. -/
theorem SplitByResets.after_eq (h : b.SplitByResets) {before after : List Sealed} {r : Container}
    (hs : b.sealed = before ++ .reset r :: after) (k : EventKind) :
    sealedEvents after k ++ (b.decoder.buffer k).stamped =
      ((b.added k).filter fun a => resetCount before < c.resets a.past).map Added.stamped := by
  obtain ⟨heq, hbefore, hafter⟩ := h.numbered_split hs k
  have hnone : (numbered k before 0).filter (fun e => resetCount before < e.2) = [] :=
    List.filter_eq_nil_iff.2 fun e he hlt =>
      Nat.not_lt.2 (hbefore e he) (of_decide_eq_true hlt)
  have hfilter := congrArg (List.filter fun e => resetCount before < e.2) heq
  rw [List.filter_map, List.filter_append, hnone, List.filter_eq_self.2 fun e he =>
    decide_eq_true (hafter e he), List.nil_append] at hfilter
  have hfst := congrArg (List.map Prod.fst) hfilter
  rw [List.map_map, List.map_append, map_fst_numbered, List.map_map] at hfst
  refine Eq.trans ?_ hfst.symm
  exact congrArg _ (List.map_id _).symm

theorem SplitByResets.isReset_data (h : b.SplitByResets) (hconserved : b.Conserved) {d : Container}
    (hd : .data d ∈ b.sealed) {k : EventKind} {e : k.Record × Int} (he : e ∈ d.stamped k) :
    k.isReset e.1 = false := by
  obtain ⟨a, ha, rfl⟩ := hconserved.exists_added hd he
  exact h.added k a ha

end Ledger

theorem Container.not_isReset {c : Container}
    (h : ∀ e ∈ c.stamped .special, EventKind.isReset .special e.1 = false) :
    c.isReset = false := by
  unfold isReset
  split
  · rename_i special hbuffers
    rw [beq_eq_false_iff_ne]
    intro hkinds
    cases hlist : special.events.toList with
    | nil => simp [hlist] at hkinds
    | cons e rest =>
      have hmem : (e, special.epoch) ∈ c.stamped .special := by
        simp [stamped, buffer?, PerKind.get, hbuffers, Buffer.stamped, hlist]
      have hkind := h _ hmem
      simp [hlist] at hkinds
      simp [EventKind.isReset, hkinds.1] at hkind
  · rfl

/-- Every reset was pushed once, alone in its container, and parts the events of the units before it
from those of the units after it. -/
structure Ledger.Isolated {c : Camera} (b : Ledger c.device) (log : List Occurrence) : Prop where
  pushed_count : (pushed log).countP Container.isReset = c.resets b.units
  accepted : ∀ o ∈ handovers (stepsOf log), o.sealed.isReset → o.accepted
  eq_reset : ∀ r, .reset r ∈ b.sealed → ∃ epoch highest, r = .reset epoch highest
  isReset_data : ∀ d, .data d ∈ b.sealed → ∀ k, ∀ e ∈ d.stamped k, k.isReset e.1 = false
  before_eq : ∀ before r after, b.sealed = before ++ .reset r :: after → ∀ k,
    sealedEvents before k =
      ((b.added k).filter fun a => c.resets a.past ≤ resetCount before).map Added.stamped
  after_eq : ∀ before r after, b.sealed = before ++ .reset r :: after → ∀ k,
    sealedEvents after k ++ (b.decoder.buffer k).stamped =
      ((b.added k).filter fun a => resetCount before < c.resets a.past).map Added.stamped

theorem Ledger.SplitByResets.isolated {c : Camera} {b : Ledger c.device} (h : b.SplitByResets)
    (hconserved : b.Conserved) {log : List Occurrence}
    (hsealed : b.sealed = (handovers (stepsOf log)).map Handover.sealed)
    (hsteady : Steady (stepsOf log)) : b.Isolated log := by
  have hreset (o : Handover) (ho : o ∈ handovers (stepsOf log)) :
      o.sealed.container.isReset = o.sealed.isReset := by
    have hmem : o.sealed ∈ b.sealed := hsealed ▸ List.mem_map_of_mem ho
    cases hs : o.sealed with
    | data d =>
      rw [hs] at hmem
      exact Container.not_isReset fun e he => h.isReset_data hconserved hmem he
    | reset r =>
      rw [hs] at hmem
      obtain ⟨epoch, highest, rfl⟩ := h.eq_reset r hmem
      exact Container.isReset_reset epoch highest
  have hcount : (pushed log).countP Container.isReset = resetCount b.sealed := by
    rw [hsealed, resetCount, pushed, List.countP_map, List.countP_map, List.countP_filter]
    refine List.countP_congr fun o ho => ?_
    simp only [Function.comp, hreset o ho, Bool.and_eq_true]
    exact ⟨And.left, fun h => ⟨h, hsteady.accepted ho h⟩⟩
  exact {
    pushed_count := hcount.trans h.resetCount_eq
    accepted := fun o ho => hsteady.accepted ho
    eq_reset := h.eq_reset
    isReset_data := fun _ hd _ _ he => h.isReset_data hconserved hd he
    before_eq := fun _ _ _ hs => h.before_eq hs
    after_eq := fun _ _ _ hs => h.after_eq hs }

/-- As long as no call fails and the acquisition is wanted, the resets of a camera are isolated,
whatever room the queue has and however it is emptied. -/
theorem session_isolated {c : Camera} {settings : Settings} {d d' : Decoder c.device}
    {calls : List Call} {x x' : Exchange} {log : List Occurrence}
    {results : List (Except DecodeError Unit)}
    (hstart : Decoder.start c.device settings = .ok d)
    (h : Execution (session Decoder.call calls d) x log (d', results) x')
    (hok : ∀ r ∈ results, r.isOk) (hsteady : Steady (stepsOf log)) :
    ∃ b : Ledger c.device,
      Execution (session Ledger.call calls { decoder := d }) x log (b, results) x' ∧
      b.decoder = d' ∧ b.units = calls.flatMap (Call.units c.device.unitWidth) ∧
      b.sealed = (handovers (stepsOf log)).map Handover.sealed ∧ b.Isolated log := by
  obtain ⟨b, moves, hb, hd, hwhole⟩ := Ledger.exists_whole hstart h hok hsteady
  have hbyResets := hwhole.succeeds.splitByResets hstart hwhole.end_eq
  exact ⟨b, hb, hd, hwhole.units_eq, hwhole.sealed_eq,
    hbyResets.isolated hwhole.conserved hwhole.sealed_eq hsteady⟩

theorem session_isolated_dvs128 :
    ∃ (d d' : Decoder Camera.dvs128.device) (log : List Occurrence)
      (results : List (Except DecodeError Unit)) (x' : Exchange),
      Decoder.start Camera.dvs128.device {} = .ok d ∧
      Execution (session Decoder.call sampleCalls d) (.start 3) log (d', results) x' ∧
      (∀ r ∈ results, r.isOk) ∧ Steady (stepsOf log) ∧
      ∃ b : Ledger Camera.dvs128.device,
        Execution (session Ledger.call sampleCalls { decoder := d }) (.start 3) log (b, results) x' ∧
        b.decoder = d' ∧ b.units = sampleCalls.flatMap (Call.units 4) ∧
        b.sealed = (handovers (stepsOf log)).map Handover.sealed ∧ b.Isolated log := by
  have hrun : undisturbed Camera.dvs128.device {} sampleCalls (.start 3) := by decide +kernel
  obtain ⟨d, d', results, log, x', hd, h, hok, hsteady⟩ := exists_of_undisturbed hrun
  exact ⟨d, d', log, results, x', hd, h, hok, hsteady, session_isolated hd h hok hsteady⟩

end EventCamera
