import EventCamera.Proofs.ExactTime
import EventCamera.Proofs.Reach
import EventCamera.Proofs.Resets
import Mathlib.Data.List.Basic
import Mathlib.Data.List.Flatten

/-! # The order of events

As long as the device time goes back at resets only, the events of a kind are read in the order of
their times from one reset to the next, whatever was dropped in between. The marker that ends an
epoch carries the last time of that epoch, which lies between the times around it. -/

namespace EventCamera

/-- The time of an event as one number without bounds. -/
def Added.time {k : EventKind} (a : Added k) : Int :=
  a.epoch * epochLength + k.time a.record

/-- The full time of an event, by the epoch of its buffer. -/
def EventKind.fullTime (k : EventKind) (e : k.Record × Int) : Int :=
  EventCamera.fullTime e.2 (k.time e.1)

/-- The full times of the events of a kind. -/
def Container.times (c : Container) (k : EventKind) : List Int :=
  (c.stamped k).map k.fullTime

namespace Camera

variable {c : Camera} {units : List (List UInt8)}

/-- The device time goes back at resets only. -/
def Forward (c : Camera) (units : List (List UInt8)) : Prop :=
  ∀ past unit, past ++ [unit] <+: units → c.mark unit ≠ .reset →
    c.time past ≤ c.time (past ++ [unit])

theorem Forward.of_prefix {past : List (List UInt8)} (h : c.Forward units) (hp : past <+: units) :
    c.Forward past :=
  fun past' unit hpast => h past' unit (hpast.trans hp)

theorem forward_iff : c.Forward units ↔ ∀ n < units.length, ∀ unit ∈ units[n]?,
    c.mark unit ≠ .reset → c.time (units.take n) ≤ c.time (units.take (n + 1)) := by
  constructor
  · intro h n hn unit hunit
    have htake : units.take (n + 1) = units.take n ++ [unit] := by
      rw [List.take_add_one, Option.mem_def.1 hunit, Option.toList_some]
    rw [htake]
    exact h _ unit (htake ▸ List.take_prefix ..)
  · intro h past unit hprefix
    obtain ⟨later, rfl⟩ := hprefix
    have hn := h past.length (by simp) unit (by simp)
    rwa [List.append_assoc, List.take_left, List.take_length_add_append] at hn

instance : Decidable (c.Forward units) :=
  decidable_of_iff' _ forward_iff

theorem resets_le_of_prefix {past : List (List UInt8)} (h : past <+: units) :
    c.resets past ≤ c.resets units :=
  h.sublist.countP_le

end Camera

namespace Ledger

variable {c : Camera} {b : Ledger c.device}

/-! ## What a unit adds -/

/-- The events of a unit are in the epoch before it. -/
theorem EventsTimed.epoch_of_addedBy (h : b.EventsTimed) {unit : List UInt8} {k : EventKind} {a : Added k}
    (ha : a ∈ b.addedBy unit k) : a.past = b.units ++ [unit] ∧ a.epoch = c.epoch b.units := by
  obtain ⟨body, hleads⟩ := c.leads b.decoder.device unit
  obtain ⟨hpast, hepoch, -⟩ := Decoder.mem_additions_leads hleads ha
  exact ⟨hpast, (hepoch.trans (h.epoch_eq k)).trans h.clockShowsTime.epoch_now⟩

/-- As long as the epochs fit their counter, all events of a unit have the same time, which lies
between the device times before and after the unit. -/
theorem EventsTimed.exists_time (h : b.EventsTimed) {unit : List UInt8} (hne : c.mark unit ≠ .reset)
    (hrange : c.epochs b.units < 2 ^ 31)
    (hforward : c.time b.units ≤ c.time (b.units ++ [unit])) :
    ∃ time, c.time b.units ≤ time ∧ time ≤ c.time (b.units ++ [unit]) ∧
      ∀ k, ∀ a ∈ b.addedBy unit k,
        a.time = time ∧ 0 ≤ k.time a.record ∧ k.time a.record ≤ maxTime := by
  obtain ⟨body, hleads⟩ := c.leads b.decoder.device unit
  have hnow := h.tells.time_eq
  rw [h.wrapUnit_eq] at hnow
  change c.epochs b.units * epochLength + _ = c.time b.units at hnow
  have hepochs := h.clockShowsTime.epochs_unit unit
  have hunit (k : EventKind) (a : Added k) (ha : a ∈ b.addedBy unit k) :
      a.epoch = c.epochs b.units :=
    (h.epoch_of_addedBy ha).2.trans (c.epoch_eq_of_lt hrange)
  cases hm : c.mark unit with
  | silent | tick =>
    refine ⟨c.time (b.units ++ [unit]), hforward, Int.le_refl _, fun k a ha => ?_⟩
    obtain ⟨-, -, hplain, -⟩ := Decoder.mem_additions_beside hleads (by rw [hm]; rfl) ha
    obtain ⟨hpast, htime⟩ := h.of_mem_additions ha
    obtain ⟨-, htime, hbounds⟩ := htime hplain
    rw [hm] at hepochs
    rw [hpast, hepochs] at htime
    refine ⟨?_, hbounds⟩
    rw [Added.time, hunit k a ha]
    exact htime
  | turns count =>
    have hcodes := Camera.codes_of_fillsUnit hm rfl b.decoder.device
    by_cases hends : b.decoder.clock.endsEpoch (.ofNat count)
    · refine ⟨c.epochs b.units * epochLength + maxTime, ?_, ?_, fun k a ha => ?_⟩
      · have := h.tells.current_le
        omega
      · have htells := h.clockShowsTime.tells_unit unit
        have hafter := htells.time_eq
        have hnonneg := htells.current_nonneg
        rw [Mark.wrapUnit_move, h.wrapUnit_eq] at hafter
        change c.epochs (b.units ++ [unit]) * epochLength + _ = c.time (b.units ++ [unit]) at hafter
        rw [hm, Mark.forces, if_pos hends] at hepochs
        rw [hepochs, Forced.nextEpoch] at hafter
        simp only [maxTime, epochLength] at *
        omega
      · have hepoch := hunit k a ha
        rw [addedBy, hcodes] at ha
        obtain ⟨-, -, -, -, htime⟩ := Decoder.mem_additions_turns ha
        refine ⟨?_, ?_, Int.le_of_eq htime⟩
        · rw [Added.time, hepoch, htime]
        · rw [htime]
          decide
    · refine ⟨c.time b.units, Int.le_refl _, hforward, fun k a ha => ?_⟩
      rw [addedBy, hcodes] at ha
      exact absurd (Decoder.mem_additions_turns ha).2.2.1 hends
  | reset => exact absurd hm hne

/-! ## Runs -/

/-- Since a reset, the events of a kind were added in the order of their times, and none of them is
ahead of the device time. The parts of a time are in their ranges. -/
structure Ordered (b : Ledger c.device) : Prop where
  pairwise : ∀ k, (b.added k).Pairwise fun a a' =>
    c.resets a.past = c.resets a'.past → a.time ≤ a'.time
  le_now : ∀ k, ∀ a ∈ b.added k, c.resets a.past = c.resets b.units → a.time ≤ c.time b.units
  epoch : ∀ k, ∀ a ∈ b.added k, ∃ past, past <+: b.units ∧ a.epoch = c.epoch past
  time : ∀ k, ∀ a ∈ b.added k, 0 ≤ k.time a.record ∧ k.time a.record ≤ maxTime

theorem Ordered.advance (h : b.Ordered) (htimed : b.EventsTimed) (m : Move)
    (hrange : c.epochs b.units < 2 ^ 31)
    (hforward : ∀ unit ∈ m.unit?, c.mark unit ≠ .reset →
      c.time b.units ≤ c.time (b.units ++ [unit])) : (b.advance m).Ordered := by
  cases m with
  | rest => exact ⟨h.pairwise, h.le_now, h.epoch, h.time⟩
  | unit unit =>
    have hpast (k : EventKind) (a : Added k) (ha : a ∈ b.addedBy unit k) :
        ∃ past, past <+: b.units ++ [unit] ∧ a.epoch = c.epoch past :=
      ⟨b.units, List.prefix_append .., (htimed.epoch_of_addedBy ha).2⟩
    have hepoch : ∀ k, ∀ a ∈ b.added k ++ b.addedBy unit k,
        ∃ past, past <+: b.units ++ [unit] ∧ a.epoch = c.epoch past := by
      intro k a ha
      rcases List.mem_append.1 ha with ha | ha
      · obtain ⟨past, hpast, he⟩ := h.epoch k a ha
        exact ⟨past, hpast.trans (List.prefix_append ..), he⟩
      · exact hpast k a ha
    by_cases hreset : c.mark unit = .reset
    · have hnone (k : EventKind) : b.added k ++ b.addedBy unit k = b.added k := by
        rw [addedBy_reset hreset, List.append_nil]
      refine ⟨fun k => ?_, fun k a ha hsame => ?_, hepoch, fun k a ha => ?_⟩
      · change (b.added k ++ b.addedBy unit k).Pairwise _
        rw [hnone k]
        exact h.pairwise k
      · have hle := Camera.resets_le_of_prefix (c := c) (htimed.added k a (hnone k ▸ ha)).1
        have hmore : c.resets (b.units ++ [unit]) = c.resets b.units + 1 := by
          rw [c.resets_append_singleton, if_pos hreset]
        change c.resets a.past = c.resets (b.units ++ [unit]) at hsame
        omega
      · exact h.time k a (hnone k ▸ ha)
    · have hle := hforward unit rfl hreset
      obtain ⟨time, hbefore, hafter, hnew⟩ := htimed.exists_time hreset hrange hle
      have hresets : c.resets (b.units ++ [unit]) = c.resets b.units := by
        rw [c.resets_append_singleton, if_neg hreset, Nat.add_zero]
      refine ⟨fun k => ?_, fun k a ha hsame => ?_, hepoch, fun k a ha => ?_⟩
      · refine List.pairwise_append.2 ⟨h.pairwise k, ?_, fun a ha a' ha' hsame => ?_⟩
        · refine List.pairwise_of_forall_mem_list fun a ha a' ha' _ => ?_
          exact Int.le_of_eq ((hnew k a ha).1.trans (hnew k a' ha').1.symm)
        · rw [(htimed.epoch_of_addedBy ha').1, hresets] at hsame
          rw [(hnew k a' ha').1]
          exact Int.le_trans (h.le_now k a ha hsame) hbefore
      · rcases List.mem_append.1 ha with ha | ha
        · exact Int.le_trans (h.le_now k a ha (hsame.trans hresets)) hle
        · exact (hnew k a ha).1 ▸ hafter
      · rcases List.mem_append.1 ha with ha | ha
        · exact h.time k a ha
        · exact (hnew k a ha).2

theorem Ordered.count (h : b.Ordered) (hs : List Handover) : (b.count hs).Ordered :=
  ⟨h.pairwise, h.le_now, h.epoch, h.time⟩

theorem ordered_start (d : Decoder c.device) : Ordered { decoder := d } :=
  ⟨fun _ => .nil, nofun, nofun, nofun⟩

/-- While no step fails, a run whose time goes forward keeps the events in order, as long as the epochs
fit their counter. -/
theorem Succeeds.ordered {moves : List Move} (h : b.Succeeds moves) (htimed : b.EventsTimed)
    (hordered : b.Ordered) (hforward : c.Forward (b.run moves).units)
    (hrange : c.InRange (b.run moves).units) : (b.run moves).Ordered := by
  refine h.induction_units htimed (Q := fun units => c.Forward units ∧ c.InRange units)
    (fun hpast => And.imp (fun h => h.of_prefix hpast) (fun h => h.of_prefix hpast))
    (fun {b m} hb hearlier hok hunits => ?_) hordered ⟨hforward, hrange⟩
  obtain ⟨hforward, hrange⟩ := hunits
  refine hearlier.advance hb m (hrange b.units (b.units_prefix_run [m])) fun unit hunit hne => ?_
  cases m with
  | unit unit' =>
    cases hunit
    exact hforward b.units unit List.prefix_rfl hne
  | rest => cases hunit

/-! ## Between resets -/

/-- While the epochs fit their counter, the full time of an event is its time. -/
theorem Ordered.fullTime_eq (h : b.Ordered) (hrange : c.InRange b.units) {k : EventKind}
    {a : Added k} (ha : a ∈ b.added k) : k.fullTime a.stamped = a.time := by
  obtain ⟨past, hpast, hepoch⟩ := h.epoch k a ha
  obtain ⟨hnonneg, hle⟩ := h.time k a ha
  have hlt := hrange past hpast
  have hpos := c.epochs_nonneg past
  have heq := hepoch.trans (c.epoch_eq_of_lt hlt)
  rw [← heq] at hlt hpos
  exact EventCamera.fullTime_eq (Int.le_trans (by decide) hpos) (Int.lt_trans hlt (by decide)) hnonneg hle

theorem Ordered.numbered (h : b.Ordered) (hbyResets : b.SplitByResets) (hrange : c.InRange b.units)
    (k : EventKind) : (numbered k b.sealed 0).Pairwise fun e e' =>
      e.2 = e'.2 → k.fullTime e.1 ≤ k.fullTime e'.1 := by
  have hall : ((b.added k).map fun a => (a.stamped, c.resets a.past)).Pairwise fun e e' =>
      e.2 = e'.2 → k.fullTime e.1 ≤ k.fullTime e'.1 := by
    refine List.pairwise_map.2 ((h.pairwise k).imp_of_mem fun ha ha' hle hsame => ?_)
    rw [h.fullTime_eq hrange ha, h.fullTime_eq hrange ha']
    exact hle hsame
  rw [← hbyResets.numbered_eq k] at hall
  exact (List.pairwise_append.1 hall).1

/-- The full times of the events of a kind do not decrease through containers among which there is
none of a reset. -/
theorem Ordered.times (h : b.Ordered) (hbyResets : b.SplitByResets) (hrange : c.InRange b.units)
    {between : List Sealed} (hpart : between <:+: b.sealed)
    (hnone : ∀ s ∈ between, s.isReset = false) (k : EventKind) :
    ((sealedEvents between k).map k.fullTime).Pairwise (· ≤ ·) := by
  obtain ⟨before, after, heq⟩ := hpart
  have hnumbered := h.numbered hbyResets hrange k
  rw [← heq, numbered_append, numbered_append, numbered_of_not_isReset hnone] at hnumbered
  have hmiddle := (List.pairwise_append.1 (List.pairwise_append.1 hnumbered).1).2.1
  exact List.pairwise_map.2 ((List.pairwise_map.1 hmiddle).imp fun hle => hle rfl)

end Ledger

/-- The containers of a session are read in the order of time from one reset to the next, whichever
of them the queue took. -/
structure Ledger.InOrder {dev : Device} (b : Ledger dev) (x : Exchange) (log : List Occurrence)
    (x' : Exchange) : Prop where
  handedOver : b.sealed = (handovers (stepsOf log)).map Handover.sealed
  queued : x.queue.items ++ EventCamera.pushed log = takenFrom log ++ x'.queue.items
  between : ∀ hs, hs <:+: handovers (stepsOf log) → (∀ h ∈ hs, h.sealed.isReset = false) →
    ∀ got : List Handover, got.Sublist hs → ∀ k,
      (got.flatMap fun h => h.sealed.container.times k).Pairwise (· ≤ ·)
  /-- The containers that the queue took, unless a reset among them was abandoned. -/
  pushed : NoneAbandoned (handovers (stepsOf log)).dropLast →
    ∀ containers, containers <:+: EventCamera.pushed log →
      (∀ container ∈ containers, container.isReset = false) → ∀ k,
        (containers.flatMap (·.times k)).Pairwise (· ≤ ·)

/-- Accepted containers without a reset are part of handed over ones without a reset. -/
theorem exists_infix_of_accepted {hs got : List Handover} (hnone : NoneAbandoned hs)
    (hgot : got <:+: hs.filter Handover.accepted) (hreset : ∀ h ∈ got, h.sealed.isReset = false) :
    ∃ whole, whole <:+: hs ∧ got.Sublist whole ∧ ∀ h ∈ whole, h.sealed.isReset = false := by
  obtain ⟨before, after, heq⟩ := hgot
  obtain ⟨front, last, rfl, hfront, -⟩ := List.filter_eq_append_iff.1 heq.symm
  obtain ⟨first, whole, rfl, -, rfl⟩ := List.filter_eq_append_iff.1 hfront
  refine ⟨whole, ⟨first, last, rfl⟩, List.filter_sublist, fun h hh => ?_⟩
  have habandoned := hnone h (by simp [hh])
  cases hisReset : h.sealed.isReset with
  | false => rfl
  | true =>
    rw [Handover.isAbandoned, hisReset, Bool.true_and, Bool.not_eq_false'] at habandoned
    rw [← hisReset, hreset h (List.mem_filter.2 ⟨hh, habandoned⟩)]

/-- If a reset was abandoned at the end, the queue took what it would have taken without it. -/
theorem exists_noneAbandoned {hs : List Handover} (h : NoneAbandoned hs.dropLast) :
    ∃ part, part <+: hs ∧ NoneAbandoned part ∧
      part.filter Handover.accepted = hs.filter Handover.accepted := by
  rcases hs.eq_nil_or_concat with rfl | ⟨front, last, rfl⟩
  · exact ⟨[], List.prefix_rfl, h, rfl⟩
  · rw [List.concat_eq_append] at h ⊢
    rw [List.dropLast_concat] at h
    cases hlast : last.isAbandoned with
    | false =>
      exact ⟨_, List.prefix_rfl, noneAbandoned_append.2 ⟨h, List.forall_mem_singleton.2 hlast⟩, rfl⟩
    | true =>
      have hrefused : last.accepted = false := by simp_all [Handover.isAbandoned]
      refine ⟨front, List.prefix_append .., h, ?_⟩
      rw [List.filter_append, List.filter_cons_of_neg (by simp [hrefused]), List.filter_nil,
        List.append_nil]

theorem flatMap_times {hs : List Handover} (hnone : ∀ h ∈ hs, h.sealed.isReset = false)
    (k : EventKind) : (hs.flatMap fun h => h.sealed.container.times k) =
      (sealedEvents (hs.map Handover.sealed) k).map k.fullTime := by
  rw [sealedEvents, List.flatMap_map, List.map_flatMap]
  refine List.flatMap_congr fun h hh => ?_
  have hdata := hnone h hh
  obtain ⟨sealed, accepted⟩ := h
  cases sealed with
  | data => rfl
  | reset => cases hdata

theorem Ledger.Ordered.inOrder {c : Camera} {b : Ledger c.device} (h : b.Ordered)
    (hbyResets : b.SplitByResets)
    (hrange : c.InRange b.units) {x x' : Exchange} {log : List Occurrence}
    (hsealed : b.sealed = (handovers (stepsOf log)).map Handover.sealed)
    (hqueued : x.queue.items ++ pushed log = takenFrom log ++ x'.queue.items) :
    b.InOrder x log x' := by
  have hbetween : ∀ hs, hs <:+: handovers (stepsOf log) → (∀ h ∈ hs, h.sealed.isReset = false) →
      ∀ got : List Handover, got.Sublist hs → ∀ k,
        (got.flatMap fun h => h.sealed.container.times k).Pairwise (· ≤ ·) := by
    intro hs hinfix hnone got hgot k
    have htimes := h.times hbyResets hrange (hsealed ▸ hinfix.map Handover.sealed)
      (List.forall_mem_map.2 hnone) k
    rw [← flatMap_times hnone] at htimes
    exact htimes.sublist (hgot.flatMap _)
  refine ⟨hsealed, hqueued, hbetween, fun hlast containers hinfix hnone k => ?_⟩
  obtain ⟨part, hpart, hpartNone, hfilter⟩ := exists_noneAbandoned hlast
  have hpushed : pushed log =
      (part.filter Handover.accepted).map (·.sealed.container) := by rw [hfilter]; rfl
  obtain ⟨before, after, heq⟩ := hinfix
  obtain ⟨front, _, hfront, hmapped, -⟩ := List.map_eq_append_iff.1 (hpushed.symm.trans heq.symm)
  obtain ⟨_, got, rfl, -, rfl⟩ := List.map_eq_append_iff.1 hmapped
  have hgot : got <:+: part.filter Handover.accepted := hfront ▸ ⟨_, _, rfl⟩
  have hdata : ∀ h ∈ got, h.sealed.isReset = false := by
    intro o ho
    have hmem : o.sealed ∈ b.sealed := by
      rw [hsealed]
      exact List.mem_map_of_mem
        (hpart.subset (List.mem_filter.1 (hgot.subset ho)).1)
    have hcontainer := hnone _ (List.mem_map_of_mem ho)
    cases hs : o.sealed with
    | data => rfl
    | reset r =>
      rw [hs] at hmem hcontainer
      obtain ⟨epoch, highest, rfl⟩ := hbyResets.eq_reset r hmem
      exact hcontainer
  obtain ⟨whole, hwhole, hsublist, hreset⟩ := exists_infix_of_accepted hpartNone hgot hdata
  rw [List.flatMap_map]
  exact hbetween whole (hwhole.trans hpart.isInfix) hreset got hsublist k

/-- As long as no call fails, the events of a camera whose time goes back at resets only are delivered
in the order of time from one reset to the next, whatever room the queue has and however it is
emptied. -/
theorem session_inOrder {c : Camera} {settings : Settings} {d d' : Decoder c.device}
    {calls : List Call} {x x' : Exchange} {log : List Occurrence}
    {results : List (Except DecodeError Unit)}
    (hstart : Decoder.start c.device settings = .ok d)
    (h : Execution (session Decoder.call calls d) x log (d', results) x')
    (hok : ∀ r ∈ results, r.isOk) :
    ∃ (b : Ledger c.device) (moves : List Move),
      Execution (session Ledger.call calls { decoder := d }) x log (b, results) x' ∧
      b.decoder = d' ∧ b.Flawless d calls log moves ∧
      (c.Forward b.units → c.InRange b.units → b.InOrder x log x') := by
  obtain ⟨b, moves, hb, hd, hflawless⟩ := Ledger.exists_flawless hstart h hok
  refine ⟨b, moves, hb, hd, hflawless, fun hforward hrange => ?_⟩
  have hend := hflawless.end_eq
  have hbyResets := hflawless.succeeds.splitByResets hstart hend
  have hordered : b.Ordered := by
    have hforward' : c.Forward (Ledger.run { decoder := d } moves).units := by
      rwa [hend] at hforward
    have hrange' : c.InRange (Ledger.run { decoder := d } moves).units := by
      rwa [hend] at hrange
    rw [hend]
    exact (hflawless.succeeds.ordered (Ledger.eventsTimed_start hstart) (Ledger.ordered_start d)
      hforward' hrange').count _
  exact hordered.inOrder hbyResets hrange hflawless.sealed_eq hb.items_append_pushed

theorem session_inOrder_dvs128 :
    ∃ (d d' : Decoder Camera.dvs128.device) (log : List Occurrence)
      (results : List (Except DecodeError Unit)) (x' : Exchange),
      Decoder.start Camera.dvs128.device {} = .ok d ∧
      Execution (session Decoder.call sampleCalls d) (.start 3) log (d', results) x' ∧
      (∀ r ∈ results, r.isOk) ∧
      ∃ (b : Ledger Camera.dvs128.device) (moves : List Move),
        Execution (session Ledger.call sampleCalls { decoder := d }) (.start 3) log (b, results) x' ∧
        b.decoder = d' ∧ b.Flawless d sampleCalls log moves ∧
        b.units = sampleCalls.flatMap (Call.units 4) ∧ b.InOrder (.start 3) log x' := by
  have hrun : undisturbed Camera.dvs128.device {} sampleCalls (.start 3) := by decide +kernel
  have hforward : Camera.dvs128.Forward (sampleCalls.flatMap (Call.units 4)) := by decide +kernel
  have hlength : (sampleCalls.flatMap (Call.units 4)).length = 5 := by decide +kernel
  obtain ⟨d, d', results, log, x', hd, h, hok, hsteady⟩ := exists_of_undisturbed hrun
  obtain ⟨b, moves, hb, hd', hflawless, horder⟩ := session_inOrder hd h hok
  have hunits : b.units = sampleCalls.flatMap (Call.units 4) := hflawless.units_eq hsteady
  refine ⟨d, d', log, results, x', hd, h, hok, b, moves, hb, hd', hflawless, hunits,
    horder (hunits ▸ hforward) fun past hpast => ?_⟩
  have hle := Camera.dvs128.epochs_le_length past
  have := hlength ▸ hunits ▸ hpast.length_le
  omega

end EventCamera
