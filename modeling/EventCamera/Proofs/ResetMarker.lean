import EventCamera.Proofs.Epochs
import EventCamera.Proofs.Order

/-! # The marker of a reset

A reset starts the epochs over before its container is made. Its marker therefore carries the last time
of epoch zero, which is behind the events of epoch zero only. -/

namespace EventCamera

/-! ## Events in containers -/

namespace Container

theorem length_stamped (c : Container) (k : EventKind) : (c.stamped k).length = c.sizeOf k := by
  unfold stamped sizeOf
  cases c.buffer? k with
  | none => rfl
  | some b => simp [Buffer.stamped, Buffer.size]

theorem exists_stamped {c : Container} (h : c.isEmpty = false) : ∃ k, c.stamped k ≠ [] := by
  by_contra hnone
  have hsize (k : EventKind) : c.sizeOf k = 0 := by
    rw [← length_stamped]
    exact List.length_eq_zero_iff.2 (not_not.1 (not_exists.1 hnone k))
  have hempty : c.isEmpty := by
    simp [isEmpty, size, hsize, EventKind.all]
  rw [h] at hempty
  cases hempty

/-- The marker of a reset container is not behind the events of another container. -/
def SortsAfter (r c : Container) : Prop :=
  ∀ marker ∈ r.times .special, ∀ k, ∀ time ∈ c.times k, time ≤ marker

instance (r c : Container) : Decidable (r.SortsAfter c) :=
  inferInstanceAs (Decidable (∀ marker ∈ r.times .special, ∀ k, ∀ time ∈ c.times k, time ≤ marker))

theorem stamped_reset (epoch highest : Int) :
    (reset epoch highest).stamped .special = [(SpecialEvent.reset, epoch)] := rfl

theorem times_reset (highest : Int) : (reset 0 highest).times .special = [maxTime] := by
  rw [times, stamped_reset]
  decide

end Container

/-- The containers of an epoch are those up to the first one that ends it. -/
theorem InEpochs.epoch_eq_iff {between : List Sealed} {n : Int} (h : InEpochs between n)
    (hnone : ∀ s ∈ between, s.isReset = false) :
    (∀ c, .data c ∈ between → c.epoch = n) ↔
      ∀ c, .data c ∈ between.dropLast → c.endsEpoch = false := by
  induction between generalizing n with
  | nil =>
    exact iff_of_true (fun _ hc => absurd hc List.not_mem_nil)
      fun _ hc => absurd hc List.not_mem_nil
  | cons s rest ih =>
    obtain ⟨hfirst, hrest⟩ := List.forall_mem_cons.1 hnone
    cases s with
    | reset r => cases hfirst
    | data c =>
      obtain ⟨hepoch, hlater⟩ := h
      cases rest with
      | nil => exact iff_of_true (by simp [hepoch]) fun _ hc => absurd hc List.not_mem_nil
      | cons s' rest =>
        rw [List.dropLast_cons_cons]
        by_cases hends : c.endsEpoch
        · rw [if_pos hends] at hlater
          refine iff_of_false (fun hall => ?_) fun hall => ?_
          · obtain ⟨hdata, -⟩ := List.forall_mem_cons.1 hrest
            cases s' with
            | reset r => cases hdata
            | data c' =>
              have hsame := hall c' (List.mem_cons_of_mem _ List.mem_cons_self)
              have hnext : c'.epoch = n + 1 := hlater.1
              omega
          · exact Bool.false_ne_true ((hall c List.mem_cons_self).symm.trans hends)
        · rw [if_neg hends] at hlater
          have hsame := ih hlater hrest
          have hfirst : c.epoch = n ∧ c.endsEpoch = false := ⟨hepoch, Bool.eq_false_iff.2 hends⟩
          constructor
          · intro hall c' hc'
            rcases List.mem_cons.1 hc' with heq | hc'
            · cases heq
              exact hfirst.2
            · exact hsame.1 (fun c' hc' => hall c' (List.mem_cons_of_mem _ hc')) c' hc'
          · intro hall c' hc'
            rcases List.mem_cons.1 hc' with heq | hc'
            · cases heq
              exact hfirst.1
            · exact hsame.2 (fun c' hc' => hall c' (List.mem_cons_of_mem _ hc')) c' hc'

/-! ## Steps -/

namespace Ledger

variable {c : Camera} {b : Ledger c.device}

theorem EventsTimed.time_of_addedBy (h : b.EventsTimed) {unit : List UInt8} {k : EventKind} {a : Added k}
    (ha : a ∈ b.addedBy unit k) : 0 ≤ k.time a.record ∧ k.time a.record ≤ maxTime := by
  obtain ⟨body, hleads⟩ := c.leads b.decoder.device unit
  have hplain (hfills : (c.mark unit).fillsUnit = false) :
      0 ≤ k.time a.record ∧ k.time a.record ≤ maxTime := by
    obtain ⟨-, -, hmarker, -⟩ := Decoder.mem_additions_beside hleads hfills ha
    exact ((h.of_mem_additions ha).2 hmarker).2.2
  cases hm : c.mark unit with
  | silent | tick => exact hplain (by rw [hm]; rfl)
  | turns count =>
    rw [addedBy, Camera.codes_of_fillsUnit hm rfl] at ha
    obtain ⟨-, -, -, -, htime⟩ := Decoder.mem_additions_turns ha
    rw [htime]
    decide
  | reset =>
    rw [addedBy_reset hm] at ha
    cases ha

/-- A step of a reset makes the same container every time: the epochs and the time have started over. -/
theorem ClockShowsTime.eq_reset (h : b.ClockShowsTime) {m : Move} {r : Container}
    (hr : .reset r ∈ (b.decoder.make m).handedOn) : r = .reset 0 0 := by
  obtain ⟨hforced, rfl⟩ := (b.decoder.make_made m).reset_of_mem hr
  cases m with
  | rest => cases hforced
  | unit unit =>
    obtain ⟨body, hleads⟩ := c.leads b.decoder.device unit
    have hmark := Mark.forces_eq_reset_iff.1 (Decoder.forced_forEach_leads hleads hforced).symm
    obtain ⟨-, htells⟩ := h.advance (.unit unit)
    have hzero : c.elapsed (b.advance (.unit unit)).units = {} := by
      change c.elapsed (b.units ++ [unit]) = {}
      rw [c.elapsed_append_singleton, hmark]
      rfl
    rw [hzero] at htells
    have hepochs : Elapsed.epochs {} (b.advance (.unit unit)).decoder.clock.wrapUnit = 0 := by
      simp [Elapsed.epochs]
    have hepoch : (b.advance (.unit unit)).decoder.clock.epoch = 0 := by
      rw [htells.epoch_eq, Elapsed.epoch, hepochs]
      rfl
    have hfull : (b.advance (.unit unit)).decoder.clock.full = 0 :=
      (htells.full_eq (by omega)).trans (by simp [Elapsed.time])
    exact congrArg₂ Container.reset hepoch hfull

/-! ## Runs -/

/-- Every event was added in an epoch of the device time, with a time in the range of event times. -/
structure EventsInRange (b : Ledger c.device) : Prop where
  epoch : ∀ k, ∀ a ∈ b.added k, ∃ past, past <+: b.units ∧ a.epoch = c.epoch past
  time : ∀ k, ∀ a ∈ b.added k, 0 ≤ k.time a.record ∧ k.time a.record ≤ maxTime

theorem EventsInRange.advance (h : b.EventsInRange) (htimed : b.EventsTimed) (m : Move) :
    (b.advance m).EventsInRange := by
  cases m with
  | rest => exact ⟨h.epoch, h.time⟩
  | unit unit =>
    refine ⟨fun k a ha => ?_, fun k a ha => ?_⟩
    · rcases List.mem_append.1 ha with ha | ha
      · obtain ⟨past, hpast, heq⟩ := h.epoch k a ha
        exact ⟨past, hpast.trans (List.prefix_append ..), heq⟩
      · exact ⟨b.units, List.prefix_append .., (htimed.epoch_of_addedBy ha).2⟩
    · rcases List.mem_append.1 ha with ha | ha
      · exact h.time k a ha
      · exact htimed.time_of_addedBy ha

theorem eventsInRange_start (d : Decoder c.device) : EventsInRange { decoder := d } :=
  ⟨fun _ => List.forall_mem_nil _, fun _ => List.forall_mem_nil _⟩

theorem Succeeds.eventsInRange {moves : List Move} (h : b.Succeeds moves) (htimed : b.EventsTimed)
    (hinRange : b.EventsInRange) : (b.run moves).EventsInRange :=
  (h.induction (P := fun b => b.EventsTimed ∧ b.EventsInRange)
    (fun hb hok => ⟨hb.1.advance hok, hb.2.advance hb.1 _⟩) ⟨htimed, hinRange⟩).2

theorem EventsInRange.times_mem (h : b.EventsInRange) (hepochal : b.Epochal) (hconserved : b.Conserved)
    (hrange : c.InRange b.units) {container : Container} (hc : .data container ∈ b.sealed)
    {k : EventKind} {time : Int} (htime : time ∈ container.times k) :
    0 ≤ container.epoch ∧ container.epoch * epochLength ≤ time ∧
      time ≤ container.epoch * epochLength + maxTime := by
  obtain ⟨e, he, rfl⟩ := List.mem_map.1 htime
  obtain ⟨a, ha, rfl⟩ := hconserved.exists_added hc he
  obtain ⟨past, hpast, hepoch⟩ := h.epoch k a ha
  obtain ⟨hnonneg, hle⟩ := h.time k a ha
  have hlt := hrange past hpast
  have hpos := c.epochs_nonneg past
  have heq := hepoch.trans (c.epoch_eq_of_lt hlt)
  rw [← heq] at hlt hpos
  have hsame : a.epoch = container.epoch := hepochal.epoch_of_mem hc he
  have hfull : k.fullTime a.stamped = a.epoch * epochLength + k.time a.record :=
    fullTime_eq (Int.le_trans (by decide) hpos) (Int.lt_trans hlt (by decide)) hnonneg hle
  rw [hfull, ← hsame]
  omega

/-- How the markers of resets stand to the events before them. The marker of a reset is not behind the
events of a container if and only if that is of epoch zero. It is not behind any event since the last
reset if and only if none of the containers since then ended an epoch, apart from the last one. -/
structure ResetsSorted (b : Ledger c.device) : Prop where
  eq_reset : ∀ r, .reset r ∈ b.sealed → r = .reset 0 0
  sortsAfter_iff : ∀ r container, .reset r ∈ b.sealed → .data container ∈ b.sealed →
    (r.SortsAfter container ↔ container.epoch = 0)
  since_iff : ∀ front between r after, b.sealed = front ++ between ++ .reset r :: after →
    (∀ s ∈ front.getLast?, s.isReset) → (∀ s ∈ between, s.isReset = false) →
    ((∀ container, .data container ∈ between → r.SortsAfter container) ↔
      ∀ container, .data container ∈ between.dropLast → container.endsEpoch = false)

/-- A marker of epoch zero is not behind the events of epoch zero, and behind all others. -/
theorem EventsInRange.sortsAfter_iff (h : b.EventsInRange) (hepochal : b.Epochal)
    (hconserved : b.Conserved)
    (hrange : c.InRange b.units) {container : Container} (hc : .data container ∈ b.sealed) :
    (Container.reset 0 0).SortsAfter container ↔ container.epoch = 0 := by
  have hmem {k : EventKind} {time : Int} (htime : time ∈ container.times k) :=
    h.times_mem hepochal hconserved hrange hc htime
  unfold Container.SortsAfter
  rw [Container.times_reset, List.forall_mem_singleton]
  constructor
  · intro hle
    obtain ⟨k, hne⟩ := Container.exists_stamped (hconserved.filled container hc).isEmpty_eq
    obtain ⟨e, he⟩ := List.exists_mem_of_ne_nil _ hne
    have htime : k.fullTime e ∈ container.times k := List.mem_map_of_mem he
    obtain ⟨hpos, hlow, -⟩ := hmem htime
    have := hle k _ htime
    simp only [maxTime, epochLength] at *
    omega
  · intro hzero k time htime
    obtain ⟨-, -, hhigh⟩ := hmem htime
    rw [hzero] at hhigh
    omega

/-- Behind a reset, or at the start, the epochs start at zero. -/
theorem epochAfter_eq_zero {front : List Sealed} (h : ∀ s ∈ front.getLast?, s.isReset) :
    epochAfter front 0 = 0 := by
  rcases front.eq_nil_or_concat with rfl | ⟨before, last, rfl⟩
  · rfl
  · rw [List.concat_eq_append] at h ⊢
    have hlast := h last List.getLast?_concat
    cases last with
    | data => cases hlast
    | reset r => rw [epochAfter_append]; rfl

theorem EventsInRange.resetsSorted (h : b.EventsInRange) (hepochal : b.Epochal) (hconserved : b.Conserved)
    (heq : ∀ r, .reset r ∈ b.sealed → r = .reset 0 0) (hrange : c.InRange b.units) :
    b.ResetsSorted := by
  have hsorts (r container : Container) (hr : .reset r ∈ b.sealed)
      (hc : .data container ∈ b.sealed) : r.SortsAfter container ↔ container.epoch = 0 := by
    rw [heq r hr]
    exact h.sortsAfter_iff hepochal hconserved hrange hc
  refine ⟨heq, hsorts, fun front between r after hsealed hfront hnone => ?_⟩
  have hr : .reset r ∈ b.sealed := by simp [hsealed]
  have hbetween (container : Container) (hc : .data container ∈ between) :
      .data container ∈ b.sealed := by simp [hsealed, hc]
  have hinEpochs : InEpochs between 0 := by
    have hall := hepochal.inEpochs
    rw [hsealed] at hall
    have hpart := (inEpochs_append.1 (inEpochs_append.1 hall).1).2
    rwa [epochAfter_eq_zero hfront] at hpart
  rw [← hinEpochs.epoch_eq_iff hnone]
  exact forall₂_congr fun container hc => hsorts r container hr (hbetween container hc)

theorem ResetsSorted.count (h : b.ResetsSorted) (hs : List Handover) : (b.count hs).ResetsSorted :=
  ⟨h.eq_reset, h.sortsAfter_iff, h.since_iff⟩

end Ledger

/-- As long as no call fails, the marker of a reset is not behind the events since the last reset if and
only if no epoch ended in between, whatever the queue does. -/
theorem session_resetsSorted {c : Camera} {settings : Settings} {d d' : Decoder c.device}
    {calls : List Call} {x x' : Exchange} {log : List Occurrence}
    {results : List (Except DecodeError Unit)}
    (hstart : Decoder.start c.device settings = .ok d)
    (h : Execution (session Decoder.call calls d) x log (d', results) x')
    (hok : ∀ r ∈ results, r.isOk) :
    ∃ (b : Ledger c.device) (moves : List Move),
      Execution (session Ledger.call calls { decoder := d }) x log (b, results) x' ∧
      b.decoder = d' ∧ b.Flawless d calls log moves ∧ (c.InRange b.units → b.ResetsSorted) := by
  obtain ⟨b, moves, hb, hd, hflawless⟩ := Ledger.exists_flawless hstart h hok
  refine ⟨b, moves, hb, hd, hflawless, fun hrange => ?_⟩
  have htimed := Ledger.eventsTimed_start hstart
  have hinRange := hflawless.succeeds.eventsInRange htimed (Ledger.eventsInRange_start d)
  have heq (r : Container) (hr : .reset r ∈ (Ledger.run { decoder := d } moves).sealed) :
      r = .reset 0 0 := by
    rcases Ledger.exists_step_of_sealed hr with hnone | ⟨past, m, -, hr⟩
    · cases hnone
    · exact ((Ledger.clockShowsTime_start hstart).run past).eq_reset hr
  rw [hflawless.end_eq] at hrange ⊢
  obtain ⟨-, hepochal⟩ := hflawless.succeeds.epochal htimed (Ledger.epochal_start hstart) hrange
  have hconserved := (Ledger.conserved_start hstart).run moves
  exact (hinRange.resetsSorted hepochal hconserved heq hrange).count _

open Wire.DvXplorer.Encode in
/-- A DVXplorer whose counter turns so often that an epoch ends, with a pulse before and after, and a
reset behind it. -/
def turnsThenReset : List Call :=
  [.decode (tick 5 ++ special 4 ++ (List.replicate 16 (wrap 4095)).flatten ++ wrap 16 ++ tick 9 ++
    special 4 ++ reset)]

theorem session_resetsSorted_dvXplorer :
    ∃ (d d' : Decoder (Camera.dvXplorer Wire.DvXplorer.fullArray).device) (log : List Occurrence)
      (results : List (Except DecodeError Unit)) (x' : Exchange),
      Decoder.start (Camera.dvXplorer Wire.DvXplorer.fullArray).device {} = .ok d ∧
      Execution (session Decoder.call turnsThenReset d) (.start 5) log (d', results) x' ∧
      (∀ r ∈ results, r.isOk) ∧
      ∃ (b : Ledger (Camera.dvXplorer Wire.DvXplorer.fullArray).device) (moves : List Move),
        Execution (session Ledger.call turnsThenReset { decoder := d }) (.start 5) log (b, results)
          x' ∧
        b.decoder = d' ∧ b.Flawless d turnsThenReset log moves ∧
        b.units = turnsThenReset.flatMap (Call.units 2) ∧ b.ResetsSorted := by
  have hrun : undisturbed (Camera.dvXplorer Wire.DvXplorer.fullArray).device {} turnsThenReset
      (.start 5) := by decide +kernel
  have hlength : (turnsThenReset.flatMap (Call.units 2)).length = 22 := by decide +kernel
  obtain ⟨d, d', results, log, x', hd, h, hok, hsteady⟩ := exists_of_undisturbed hrun
  obtain ⟨b, moves, hb, hd', hflawless, hsorted⟩ := session_resetsSorted hd h hok
  have hunits : b.units = turnsThenReset.flatMap (Call.units 2) := hflawless.units_eq hsteady
  refine ⟨d, d', log, results, x', hd, h, hok, b, moves, hb, hd', hflawless, hunits,
    hsorted fun past hpast => ?_⟩
  have hle := (Camera.dvXplorer Wire.DvXplorer.fullArray).epochs_le_length past
  have := hlength ▸ hunits ▸ hpast.length_le
  omega

/-- The last of some containers is that of a reset, and the first one since the start; its marker is
behind an event before it. -/
def resetFallsBehind (containers : List Sealed) : Bool :=
  containers.dropLast.all (fun s => !s.isReset) && containers.getLast?.any fun r =>
    r.isReset && containers.dropLast.any fun s => !decide (r.container.SortsAfter s.container)

/-- The marker of a reset is behind a pulse of the epoch that the reset ends. -/
theorem not_sortsAfter_turnsThenReset :
    ∃ (d d' : Decoder (Camera.dvXplorer Wire.DvXplorer.fullArray).device) (log : List Occurrence)
      (results : List (Except DecodeError Unit)) (x' : Exchange),
      Decoder.start (Camera.dvXplorer Wire.DvXplorer.fullArray).device {} = .ok d ∧
      Execution (session Decoder.call turnsThenReset d) (.start 5) log (d', results) x' ∧
      (∀ r ∈ results, r.isOk) ∧
      ∃ between r, (handovers (stepsOf log)).map Handover.sealed = between ++ [.reset r] ∧
        (∀ s ∈ between, s.isReset = false) ∧
        ∃ container, .data container ∈ between ∧ ¬ r.SortsAfter container := by
  have hrun : comesTo (Camera.dvXplorer Wire.DvXplorer.fullArray).device {} turnsThenReset
      (.start 5) fun steps results => results.all Except.isOk &&
        resetFallsBehind ((handovers steps).map Handover.sealed) := by decide +kernel
  obtain ⟨d, d', results, steps, x', hd, h, htest⟩ := exists_of_comesTo hrun
  obtain ⟨hok, hbehind⟩ := Bool.and_eq_true_iff.1 htest
  refine ⟨d, d', steps.map .acted, results, x', hd, h, List.all_eq_true.1 hok, ?_⟩
  rw [stepsOf_acted]
  generalize (handovers steps).map Handover.sealed = containers at hbehind
  rcases containers.eq_nil_or_concat with rfl | ⟨between, last, rfl⟩
  · cases hbehind
  · simp only [resetFallsBehind, List.concat_eq_append, List.dropLast_concat,
      List.getLast?_concat, Option.any_some, Bool.and_eq_true, List.all_eq_true, List.any_eq_true,
      Bool.not_eq_true', decide_eq_false_iff_not] at hbehind
    obtain ⟨hnone, hreset, s, hs, hfalls⟩ := hbehind
    cases last with
    | data => cases hreset
    | reset r =>
      refine ⟨between, r, List.concat_eq_append .., hnone, ?_⟩
      cases s with
      | data container => exact ⟨container, hs, hfalls⟩
      | reset r' => cases hnone _ hs

end EventCamera
