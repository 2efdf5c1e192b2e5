import EventCamera.Proofs.Applying
import EventCamera.Proofs.Course

/-! # What sealing takes out

A step of a decoder applies codes, and then leaves the buffers as they are or takes all of their
events out. The buffers left behind are empty and in the epoch of the clock. -/

namespace EventCamera

namespace Container

def stamped (c : Container) (k : EventKind) : List (k.Record × Int) :=
  (c.buffer? k).elim [] Buffer.stamped

/-- There are events, and every buffer holds some. -/
structure Filled (c : Container) : Prop where
  isEmpty_eq : c.isEmpty = false
  buffers : ∀ k b, c.buffer? k = some b → b.isEmpty = false

theorem stamped_of_isEmpty {c : Container} (h : c.isEmpty) (k : EventKind) :
    c.stamped k = [] := by
  have hsum : (EventKind.all.map c.sizeOf).foldr (· + ·) 0 = 0 := beq_iff_eq.1 h
  have hk : c.sizeOf k = 0 := by
    simp only [EventKind.all, List.map_cons, List.map_nil, List.foldr_cons, List.foldr_nil] at hsum
    cases k <;> omega
  unfold sizeOf at hk
  unfold stamped
  cases hb : c.buffer? k with
  | none => rfl
  | some b =>
    rw [hb] at hk
    simp only [Option.elim_some, Buffer.size, Array.size_eq_zero_iff] at hk
    simp only [Option.elim_some, Buffer.stamped, hk, List.map_nil]

end Container

theorem PerKind.mapExcept_ok {β γ : EventKind → Type} {ε : Type}
    {f : (k : EventKind) → β k → Except ε (γ k)} {p : PerKind β} {q : PerKind γ}
    (h : p.mapExcept f = .ok q) (k : EventKind) : f k (p.get k) = .ok (q.get k) := by
  unfold mapExcept at h
  obtain ⟨special, hspecial, h⟩ := exists_of_bind_eq_ok h
  obtain ⟨polarity, hpolarity, h⟩ := exists_of_bind_eq_ok h
  obtain ⟨frame, hframe, h⟩ := exists_of_bind_eq_ok h
  obtain ⟨imu6, himu6, h⟩ := exists_of_bind_eq_ok h
  cases h
  cases k
  · exact hspecial
  · exact hpolarity
  · exact hframe
  · exact himu6

theorem PerKind.exists_mapExcept {β γ : EventKind → Type} {ε : Type}
    {f : (k : EventKind) → β k → Except ε (γ k)} {p : PerKind β}
    (h : ∀ k, (f k (p.get k)).isOk) : ∃ q, p.mapExcept f = .ok q := by
  obtain ⟨special, hspecial⟩ := exists_of_isOk (h .special)
  obtain ⟨polarity, hpolarity⟩ := exists_of_isOk (h .polarity)
  obtain ⟨frame, hframe⟩ := exists_of_isOk (h .frame)
  obtain ⟨imu6, himu6⟩ := exists_of_isOk (h .imu6)
  simp only [PerKind.get] at hspecial hpolarity hframe himu6
  exact ⟨⟨special, polarity, frame, imu6⟩,
    by simp only [mapExcept, hspecial, hpolarity, hframe, himu6]; rfl⟩

/-- There is memory for a new buffer of each kind under a limit. -/
def SparesNew (memory limit : Nat) : Prop :=
  ∀ k : EventKind, min k.defaultCapacity limit * k.recordSize ≤ memory

instance {memory limit : Nat} : Decidable (SparesNew memory limit) :=
  inferInstanceAs (Decidable (∀ _, _))

namespace Buffer

variable {k : EventKind}

theorem isEmpty_iff {b : Buffer k} : b.isEmpty ↔ b.stamped = [] := by
  simp [isEmpty, stamped]

theorem split_ok {b : Buffer k} {epoch : Int} {memory : Nat} {part : Split k}
    (h : b.split epoch memory = .ok part) :
    part.filled = (if b.isEmpty then none else some b) ∧ part.fresh.isEmpty ∧
      part.fresh.epoch = epoch ∧ part.fresh.limit = b.limit := by
  unfold split at h
  by_cases he : b.isEmpty
  · rw [if_pos he] at h ⊢
    cases h
    rw [moveTo, if_pos he]
    exact ⟨rfl, he, rfl, rfl⟩
  · rw [if_neg he] at h ⊢
    cases hfresh : ofKind k b.limit epoch memory with
    | error e =>
      rw [hfresh] at h
      cases h
    | ok fresh =>
      rw [hfresh] at h
      cases h
      obtain ⟨hempty, hepoch, hlimit, -⟩ := ofKind_ok hfresh
      exact ⟨rfl, hempty, hepoch, hlimit⟩

/-- A limit that is not zero, and memory for the usual capacity, leave room for a new buffer of any
kind. -/
theorem isOk_ofKind {limit memory : Nat} (h : 0 < limit) (hmemory : SparesNew memory limit)
    (epoch : Int) : (ofKind k limit epoch memory).isOk := by
  have hsmall : min k.defaultCapacity limit * k.recordSize ≤ maxReservation := by
    have hcapacity : min k.defaultCapacity limit ≤ 8192 := by
      have : k.defaultCapacity ≤ 8192 := by cases k <;> decide
      omega
    have hsize : k.recordSize ≤ 48 := by cases k <;> decide
    exact Nat.le_trans (Nat.mul_le_mul hcapacity hsize) (by decide)
  have hone : max (min k.defaultCapacity limit) 1 = min k.defaultCapacity limit := by
    have : 0 < k.defaultCapacity := by cases k <;> decide
    omega
  have hspared := hmemory k
  unfold ofKind withCapacity grant
  rw [hone, if_pos ⟨by omega, by omega⟩]
  rfl

theorem isOk_split {b : Buffer k} {memory : Nat} (h : 0 < b.limit)
    (hmemory : SparesNew memory b.limit) (epoch : Int) : (b.split epoch memory).isOk := by
  unfold split
  split
  · rfl
  · obtain ⟨fresh, hfresh⟩ := exists_of_isOk (isOk_ofKind (k := k) h hmemory epoch)
    rw [hfresh]
    rfl

end Buffer

theorem Batch.epoch_eq {b : Batch} {epoch : Int} (h : ∀ k, (b.get k).epoch = epoch) :
    b.epoch = epoch := by
  unfold Batch.epoch
  cases hfind : (b.collect fun _ buffer => (buffer.isEmpty, buffer.epoch)).find? fun p => !p.1 with
  | none => exact h .special
  | some p =>
    obtain ⟨k, -, rfl⟩ := List.mem_map.1 (List.mem_of_find?_eq_some hfind)
    exact h k

theorem Clock.epoch_postpone (c : Clock) (interval : Int) :
    (c.postpone interval).epoch = c.epoch := by
  unfold postpone
  split
  · split <;> rfl
  · rfl

namespace Collector

/-- What was taken out and what is left: the filled buffers with the time of the clock, and empty ones
in its epoch. -/
structure Emptied (c : Collector) (s : Sealing) (c' : Collector) : Prop where
  buffer_eq : ∀ k, s.data.buffer? k = if (c.batch.get k).isEmpty then none else c.batch.get k
  epoch_eq : s.data.epoch = c.batch.epoch
  highest_eq : s.data.highest = c.clock.full
  fresh_isEmpty : ∀ k, (c'.batch.get k).isEmpty
  fresh_epoch : ∀ k, (c'.batch.get k).epoch = c.clock.epoch
  fresh_limit : ∀ k, (c'.batch.get k).limit = (c.batch.get k).limit
  clock_eq : c'.clock = c.clock.postpone c.interval
  interval_eq : c'.interval = c.interval
  memory_eq : c'.memory = c.memory

/-- Everything was taken out, and a reset has its container. -/
structure TakenOut (c : Collector) (forced : Option Forced) (s : Sealing) (c' : Collector) : Prop
    extends c.Emptied s c' where
  reset_eq : s.reset? =
    if forced = some .reset then some (.reset c'.clock.epoch c'.clock.full) else none

theorem takeOut_ok {c c' : Collector} {forced : Option Forced} {s : Sealing}
    (h : c.takeOut forced = .ok (s, c')) : c.Emptied s c' ∧ s.reset =
      if forced = some .reset then
        (Container.makeReset c'.clock.epoch c'.clock.full c'.memory).map some
      else .ok none := by
  unfold takeOut at h
  obtain ⟨⟨data, batch⟩, hpack, h⟩ := exists_of_bind_eq_ok h
  cases h
  unfold Batch.pack at hpack
  obtain ⟨parts, hparts, hpack⟩ := exists_of_bind_eq_ok hpack
  cases hpack
  have hsplit (k : EventKind) := Buffer.split_ok (PerKind.mapExcept_ok hparts k)
  refine ⟨⟨fun k => ?_, rfl, by dsimp only, fun k => ?_, fun k => ?_, fun k => ?_, rfl, rfl, rfl⟩,
    rfl⟩
  · rw [← (hsplit k).1]
    exact PerKind.get_map ..
  · exact (congrArg Buffer.isEmpty (PerKind.get_map _ parts k)).trans (hsplit k).2.1
  · exact (congrArg Buffer.epoch (PerKind.get_map _ parts k)).trans (hsplit k).2.2.1
  · exact (congrArg Buffer.limit (PerKind.get_map _ parts k)).trans (hsplit k).2.2.2

/-- Every buffer can be replaced by a new one. -/
def Replaceable (c : Collector) : Prop :=
  ∀ k, 0 < (c.batch.get k).limit ∧ SparesNew c.memory (c.batch.get k).limit

/-- If every buffer can be replaced, taking out never fails. -/
theorem Replaceable.isOk_takeOut {c : Collector} (h : c.Replaceable) (forced : Option Forced) :
    (c.takeOut forced).isOk := by
  obtain ⟨parts, hparts⟩ := PerKind.exists_mapExcept (p := c.batch)
    (f := fun _ buffer => buffer.split c.clock.epoch c.memory)
    fun k => Buffer.isOk_split (h k).1 (h k).2 _
  unfold takeOut Batch.pack
  rw [hparts]
  rfl

/-- No reason to seal: no buffer is full, and the deadline has not passed. -/
structure AtRest (c : Collector) : Prop where
  not_isFull : c.isFull = false
  not_isDue : c.clock.isDue = false

theorem AtRest.settle_none {c : Collector} (h : c.AtRest) : c.settle none = .ok (none, c) := by
  simp [settle, h.not_isFull, h.not_isDue]

/-- How an evaluation goes: without a reason to seal it changes nothing, and with one it takes all
events out or fails to. -/
inductive Settlement (c : Collector) (forced : Option Forced) : Prop where
  | quiet : forced = none → c.AtRest → c.settle forced = .ok (none, c) → Settlement c forced
  | failed {e : GrowthError} : c.takeOut forced = .error e → c.settle forced = .error e →
      Settlement c forced
  | sealed {sealing : Sealing} {c' : Collector} : c.takeOut forced = .ok (sealing, c') →
      c.settle forced = .ok (some sealing, c') → Settlement c forced

theorem settlement (c : Collector) (forced : Option Forced) : c.Settlement forced := by
  by_cases hquiet : forced.isNone && !c.isFull && !c.clock.isDue
  · have hs : c.settle forced = .ok (none, c) := if_pos hquiet
    simp only [Bool.and_eq_true, Option.isNone_iff_eq_none, Bool.not_eq_true'] at hquiet
    exact .quiet hquiet.1.1 ⟨hquiet.1.2, hquiet.2⟩ hs
  · have hs : c.settle forced = _ := if_neg hquiet
    cases ht : c.takeOut forced with
    | error e =>
      rw [ht] at hs
      exact .failed ht hs
    | ok r =>
      rw [ht] at hs
      exact .sealed ht hs

variable {c c' : Collector} {forced : Option Forced} {s : Sealing}

/-- Taking out comes to all that it should, or a reset has no container. -/
theorem takenOut_or_fault (h : c.takeOut forced = .ok (s, c')) :
    s.fault? = none ∧ c.TakenOut forced s c' ∨
      ∃ e, s.fault? = some e ∧ forced = some .reset ∧ s.reset? = none ∧ c.Emptied s c' := by
  obtain ⟨hemptied, hreset⟩ := takeOut_ok h
  unfold Sealing.fault? Sealing.reset?
  by_cases hforced : forced = some .reset
  · rw [if_pos hforced, Container.makeReset_eq] at hreset
    split at hreset
    · refine .inl ⟨by rw [hreset]; rfl, hemptied, ?_⟩
      rw [if_pos hforced, Sealing.reset?, hreset]
      rfl
    · exact .inr ⟨_, by rw [hreset]; rfl, hforced, by rw [hreset]; rfl, hemptied⟩
  · rw [if_neg hforced] at hreset
    refine .inl ⟨by rw [hreset], hemptied, ?_⟩
    rw [if_neg hforced, Sealing.reset?, hreset]

/-- Where buffers can be replaced, there is memory for the container of a reset. -/
theorem Replaceable.takenOut (hr : c.Replaceable) (h : c.takeOut forced = .ok (s, c')) :
    s.fault? = none ∧ c.TakenOut forced s c' := by
  refine (takenOut_or_fault h).resolve_right ?_
  rintro ⟨e, hfault, rfl, -, hemptied⟩
  obtain ⟨-, hreset⟩ := takeOut_ok h
  have hspared := (hr .special).2 .special
  have hpos := (hr .special).1
  have hone : 1 ≤ min (EventKind.defaultCapacity .special) (c.batch.get .special).limit := by
    have : 0 < EventKind.defaultCapacity .special := by decide
    omega
  have hsize : EventKind.recordSize .special ≤ c'.memory := by
    have := Nat.mul_le_mul_right (EventKind.recordSize .special) hone
    rw [hemptied.memory_eq]
    omega
  rw [if_pos rfl, Container.makeReset_eq, if_pos hsize] at hreset
  rw [Sealing.fault?, hreset] at hfault
  cases hfault

theorem Emptied.stamped_data (h : c.Emptied s c') (k : EventKind) :
    s.data.stamped k = (c.batch.get k).stamped := by
  rw [Container.stamped, h.buffer_eq]
  by_cases he : (c.batch.get k).isEmpty
  · rw [if_pos he, Buffer.isEmpty_iff.1 he]
    rfl
  · rw [if_neg he]
    rfl

theorem Emptied.fresh_epoch_eq (h : c.Emptied s c') (k : EventKind) :
    (c'.batch.get k).epoch = c'.clock.epoch := by
  rw [h.fresh_epoch, h.clock_eq, Clock.epoch_postpone]

theorem Emptied.filled (h : c.Emptied s c') (hne : s.data.isEmpty = false) :
    s.data.Filled := by
  refine ⟨hne, fun k b hb => ?_⟩
  rw [h.buffer_eq] at hb
  by_cases he : (c.batch.get k).isEmpty
  · rw [if_pos he] at hb
    cases hb
  · rw [if_neg he] at hb
    cases hb
    exact Bool.eq_false_iff.2 he

end Collector

/-! ## Steps -/

namespace Decoder

variable {dev : Device}

/-- What a step applies before anything is sealed. -/
def moved (d : Decoder dev) : Move → Applied dev
  | .unit unit => d.applyUnit unit
  | .rest => { decoder := d }

/-- How a step goes on after its codes were applied: it fails, seals nothing, or takes out all
events; and then only a reset may still fail. -/
inductive Made (a : Applied dev) (s : Settled dev) : Prop where
  | failed (e : GrowthError) : s.decoder = a.decoder → s.result = .error e → s.handedOn = [] →
      Made a s
  | kept : a.result = .ok none → s.decoder = a.decoder → s.result = .ok none → Made a s
  | sealed {forced : Option Forced} {sealing : Sealing} : a.result = .ok forced →
      a.decoder.collector.TakenOut forced sealing s.decoder.collector →
      s.result = .ok (some sealing) → Made a s
  | cut {sealing : Sealing} (e : GrowthError) : a.result = .ok (some .reset) →
      a.decoder.collector.Emptied sealing s.decoder.collector → s.result = .error e →
      s.decoder.device = a.decoder.device → sealing.reset? = none → s.handedOn = sealing.handedOn →
      Made a s

theorem settled_made (a : Applied dev) : Made a (settled a) := by
  unfold settled
  cases hr : a.result with
  | error e => exact .failed e rfl rfl rfl
  | ok forced =>
    simp only [Except.bind]
    cases a.decoder.collector.settlement forced with
    | quiet hnone _ hs =>
      subst hnone
      rw [hs]
      exact .kept hr rfl rfl
    | failed _ hs =>
      rw [hs]
      exact .failed _ rfl rfl rfl
    | sealed ht hs =>
      rw [hs]
      rcases Collector.takenOut_or_fault ht with ⟨hnone, htaken⟩ | ⟨e, hfault, rfl, hreset, hemptied⟩
      · simp only [Except.map, Option.bind_some, hnone]
        refine .sealed hr ?_ rfl
        cases forced <;> exact htaken
      · simp only [Except.map, Option.bind_some, hfault]
        refine .cut e hr hemptied rfl rfl hreset ?_
        simp only [Settled.handedOn, Settled.sealing?, Option.map_some, Option.elim_some,
          Sealing.handedOn, hreset]
        rfl

theorem make_made (d : Decoder dev) (m : Move) : Made (d.moved m) (d.make m) := by
  cases m with
  | unit unit => exact settled_made (d.applyUnit unit)
  | rest =>
    simp only [make, settleRest, moved]
    by_cases hp : d.pending = 0
    · rw [if_pos hp]
      exact .kept rfl rfl rfl
    · rw [if_neg hp]
      cases ht : d.collector.takeOut none with
      | error e => exact .failed e rfl rfl rfl
      | ok r =>
        rcases Collector.takenOut_or_fault ht with ⟨-, htaken⟩ | ⟨_, -, hforced, -⟩
        · exact .sealed rfl htaken rfl
        · cases hforced

variable {a : Applied dev} {s : Settled dev}

/-- How a step goes on that does not fail: it seals nothing, or takes out all events. -/
inductive Completed (a : Applied dev) (s : Settled dev) : Prop where
  | kept : a.result = .ok none → s.decoder = a.decoder → s.result = .ok none → Completed a s
  | sealed {forced : Option Forced} {sealing : Sealing} : a.result = .ok forced →
      a.decoder.collector.TakenOut forced sealing s.decoder.collector →
      s.result = .ok (some sealing) → Completed a s

theorem Made.completed (h : Made a s) (hok : s.result.isOk) : Completed a s := by
  cases h with
  | failed e _ hr | cut e _ _ hr =>
    rw [hr] at hok
    cases hok
  | kept ha hd hr => exact .kept ha hd hr
  | sealed ha ht hr => exact .sealed ha ht hr

theorem Made.exists_forced (h : Made a s) (hok : s.result.isOk) :
    ∃ forced, a.result = .ok forced := by
  cases h.completed hok with
  | kept ha => exact ⟨none, ha⟩
  | sealed ha => exact ⟨_, ha⟩

/-- Sealing moves at most the deadline of the clock. -/
theorem Made.clock_eq (h : Made a s) : s.decoder.clock = a.decoder.clock ∨
    s.decoder.clock = a.decoder.clock.postpone a.decoder.collector.interval := by
  cases h with
  | failed _ hd | kept _ hd => exact .inl (by rw [hd])
  | sealed _ ht => exact .inr ht.clock_eq
  | cut _ _ he => exact .inr he.clock_eq

/-- After a step the buffers are in the epoch of the clock, if sealing was forced or they were there
before. -/
theorem Made.epoch_eq (h : Made a s) (hok : s.result.isOk)
    (hkept : a.result = .ok none → ∀ k, (a.decoder.buffer k).epoch = a.decoder.clock.epoch)
    (k : EventKind) : (s.decoder.buffer k).epoch = s.decoder.clock.epoch := by
  cases h.completed hok with
  | kept ha hd =>
    rw [hd]
    exact hkept ha k
  | sealed _ ht => exact ht.fresh_epoch_eq k

theorem Made.isEmpty_of_forced (h : Made a s) (hok : s.result.isOk) {forced : Forced}
    (ha : a.result = .ok (some forced)) (k : EventKind) : (s.decoder.buffer k).isEmpty := by
  cases h.completed hok with
  | kept ha' =>
    rw [ha] at ha'
    cases ha'
  | sealed _ ht => exact ht.fresh_isEmpty k

/-- Sealing leaves the interval between deadlines, the memory and the limits of the buffers alone. -/
theorem Made.interval_eq (h : Made a s) :
    s.decoder.collector.interval = a.decoder.collector.interval := by
  cases h with
  | failed _ hd | kept _ hd => rw [hd]
  | sealed _ ht => exact ht.interval_eq
  | cut _ _ he => exact he.interval_eq

theorem Made.memory_eq (h : Made a s) :
    s.decoder.collector.memory = a.decoder.collector.memory := by
  cases h with
  | failed _ hd | kept _ hd => rw [hd]
  | sealed _ ht => exact ht.memory_eq
  | cut _ _ he => exact he.memory_eq

theorem Made.limit_eq (h : Made a s) (k : EventKind) :
    (s.decoder.buffer k).limit = (a.decoder.buffer k).limit := by
  cases h with
  | failed _ hd | kept _ hd => rw [hd]
  | sealed _ ht => exact ht.fresh_limit k
  | cut _ _ he => exact he.fresh_limit k

theorem interval_make (d : Decoder dev) (m : Move) :
    (d.make m).decoder.collector.interval = d.collector.interval := by
  refine (d.make_made m).interval_eq.trans ?_
  cases m with
  | unit unit => exact (keptByCodes_interval _).applyUnit rfl unit
  | rest => rfl

theorem memory_make (d : Decoder dev) (m : Move) :
    (d.make m).decoder.collector.memory = d.collector.memory := by
  refine (d.make_made m).memory_eq.trans ?_
  cases m with
  | unit unit => exact (keptByCodes_memory _).applyUnit rfl unit
  | rest => rfl

/-- Nothing is sealed only if there is no reason to. -/
theorem atRest_of_settled (h : (settled a).result = .ok none) : a.decoder.collector.AtRest := by
  unfold settled at h
  cases hr : a.result with
  | error e =>
    rw [hr] at h
    cases h
  | ok forced =>
    simp only [hr, Except.bind] at h
    cases a.decoder.collector.settlement forced with
    | quiet _ hrest => exact hrest
    | failed _ hs =>
      rw [hs] at h
      cases h
    | sealed _ hs =>
      simp only [hs, Except.map] at h
      split at h <;> cases h

theorem device_settled {forced : Option Forced} (ha : a.result = .ok forced)
    (hok : (settled a).result.isOk) : (settled a).decoder.device =
      if forced.isSome then dev.invalidate a.decoder.device else a.decoder.device := by
  unfold settled at hok ⊢
  rw [ha] at hok ⊢
  simp only [Except.bind] at hok ⊢
  cases hs : a.decoder.collector.settle forced with
  | error e =>
    rw [hs] at hok
    cases hok
  | ok r =>
    simp only [hs, Except.map] at hok ⊢
    cases hfault : r.1.bind Sealing.fault? with
    | some e =>
      rw [hfault] at hok
      cases hok
    | none => cases forced <;> rfl

end Decoder

namespace Collector.Replaceable

open Decoder

variable {dev : Device} {d : Decoder dev}

theorem moved (h : d.collector.Replaceable) (m : Move) : (d.moved m).decoder.collector.Replaceable := by
  cases m with
  | unit unit =>
    intro k
    have hlimit := (keptByCodes_limit fun k => (d.buffer k).limit).applyUnit (fun _ => rfl) unit k
    have hmemory := (keptByCodes_memory d.collector.memory).applyUnit rfl unit
    change 0 < ((d.applyUnit unit).decoder.buffer k).limit ∧
      SparesNew (d.applyUnit unit).decoder.collector.memory ((d.applyUnit unit).decoder.buffer k).limit
    rw [hlimit, hmemory]
    exact h k
  | rest => exact h

theorem make (h : d.collector.Replaceable) (m : Move) :
    (d.make m).decoder.collector.Replaceable := by
  intro k
  have hmade := d.make_made m
  change 0 < ((d.make m).decoder.buffer k).limit ∧
    SparesNew (d.make m).decoder.collector.memory ((d.make m).decoder.buffer k).limit
  rw [hmade.limit_eq, hmade.memory_eq]
  exact h.moved m k

/-- A step fails only if its codes do. -/
theorem isOk_settled {a : Applied dev} (h : a.decoder.collector.Replaceable) (ha : a.result.isOk) :
    (settled a).result.isOk := by
  obtain ⟨forced, hforced⟩ := exists_of_isOk ha
  unfold settled
  simp only [hforced, Except.bind]
  cases a.decoder.collector.settlement forced with
  | quiet _ _ hs =>
    rw [hs]
    rfl
  | failed ht =>
    have hok := h.isOk_takeOut forced
    rw [ht] at hok
    cases hok
  | sealed ht hs =>
    simp only [hs, Except.map, Option.bind_some, (h.takenOut ht).1]
    rfl

theorem isOk_make_iff (h : d.collector.Replaceable) {unit : List UInt8} :
    (d.make (.unit unit)).result.isOk ↔ (d.applyUnit unit).result.isOk := by
  refine ⟨fun hok => ?_, (h.moved (.unit unit)).isOk_settled⟩
  obtain ⟨forced, hforced⟩ := (d.make_made (.unit unit)).exists_forced hok
  rw [show (d.applyUnit unit).result = _ from hforced]
  rfl

theorem isOk_make_of_forced (h : d.collector.Replaceable) {m : Move} {forced : Forced}
    (ha : (d.moved m).result = .ok (some forced)) : (d.make m).result.isOk := by
  cases m with
  | unit unit => exact (h.moved (.unit unit)).isOk_settled (by rw [ha]; rfl)
  | rest => cases ha

end Collector.Replaceable

theorem Ledger.memory_run {dev : Device} (b : Ledger dev) (moves : List Move) :
    (b.run moves).decoder.collector.memory = b.decoder.collector.memory :=
  decoder_run (P := fun d => d.collector.memory = b.decoder.collector.memory)
    (fun d m hd => (d.memory_make m).trans hd) rfl moves

theorem Ledger.replaceable_run {dev : Device} {b : Ledger dev} (h : b.decoder.collector.Replaceable)
    (moves : List Move) : (b.run moves).decoder.collector.Replaceable :=
  decoder_run (P := fun d => d.collector.Replaceable) (fun _ m hd => hd.make m) h moves

/-- There is always memory for new buffers. -/
def Settings.Spares (s : Settings) : Prop :=
  SparesNew s.memory.later s.capacityLimit

instance {s : Settings} : Decidable s.Spares :=
  inferInstanceAs (Decidable (SparesNew _ _))

theorem Decoder.Fresh.replaceable {dev : Device} {settings : Settings} {d : Decoder dev}
    (h : d.Fresh settings) (hmemory : settings.Spares) : d.collector.Replaceable := by
  intro k
  change 0 < (d.buffer k).limit ∧ SparesNew d.collector.memory (d.buffer k).limit
  rw [h.limit_eq, h.memory_eq]
  exact ⟨h.limit_pos, hmemory⟩

end EventCamera
