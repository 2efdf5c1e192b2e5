import EventCamera.Proofs.Conservation
import EventCamera.Proofs.Marking

/-! # The time of every event

Every event of a camera carries the device time at which it was added: in its buffer, and in the
container that the buffer is sealed into. -/

namespace EventCamera

namespace Mark

theorem wrapUnit_move (m : Mark) (interval : Int) (c : Clock) :
    (m.move interval c).wrapUnit = c.wrapUnit := by
  have harm (c : Clock) : (c.arm interval).wrapUnit = c.wrapUnit := by
    unfold Clock.arm
    split <;> rfl
  have hwrap (multiplier : UInt32) : (c.wrap multiplier).wrapUnit = c.wrapUnit := by
    unfold Clock.wrap
    split <;> rfl
  cases m with
  | silent => rfl
  | tick | reset => exact harm _
  | turns count =>
    simp only [move]
    split
    · exact hwrap _
    · exact (harm _).trans (hwrap _)

theorem forces_of_not_fillsUnit {m : Mark} (h : m.fillsUnit = false) (c : Clock) :
    m.forces c = none := by
  cases m with
  | silent | tick => rfl
  | turns | reset => cases h

theorem epoch_move {m : Mark} {c : Clock} (h : m.forces c = none) (interval : Int) :
    (m.move interval c).epoch = c.epoch := by
  have harm (c : Clock) : (c.arm interval).epoch = c.epoch := by
    unfold Clock.arm
    split <;> rfl
  cases m with
  | silent => rfl
  | tick ticks => exact harm _
  | turns count =>
    by_cases hends : c.endsEpoch (.ofNat count)
    · rw [forces, if_pos hends] at h
      cases h
    · rw [move, if_neg hends, harm, Clock.wrap, if_neg hends]
  | reset => cases h

end Mark

/-- The number of epochs goes up by one where the end of one is forced, and starts over where a reset
is. -/
def Forced.nextEpoch : Option Forced → Int → Int
  | none, epoch => epoch
  | some .epochEnd, epoch => epoch + 1
  | some .reset, _ => 0

namespace Camera

variable {c : Camera}

theorem epochs_after {clock : Clock} {e : Elapsed} (h : clock.Tells e) (unit : List UInt8) :
    (e.after (c.mark unit)).epochs clock.wrapUnit =
      Forced.nextEpoch ((c.mark unit).forces clock) (e.epochs clock.wrapUnit) := by
  cases hm : c.mark unit with
  | silent | tick => rfl
  | turns count =>
    rw [h.epochs_after_turns (count_lt hm), Mark.forces]
    split
    · rfl
    · exact Int.add_zero _
  | reset => simp [Elapsed.after, Elapsed.epochs, Mark.forces, Forced.nextEpoch]

/-- The codes of a mark keep the clock at the device time. -/
theorem tells_move {clock : Clock} {e : Elapsed} (h : clock.Tells e)
    (hunit : clock.wrapUnit = c.device.wrapUnit) (unit : List UInt8) (interval : Int) :
    ((c.mark unit).move interval clock).Tells (e.after (c.mark unit)) := by
  cases hm : c.mark unit with
  | silent => exact h
  | tick ticks =>
    have hlt := ticks_lt hm
    rw [← hunit] at hlt
    exact (h.tick hlt).arm interval
  | turns count =>
    have hwrap := h.wrap (count_lt hm)
    simp only [Mark.move]
    split
    · exact hwrap
    · exact hwrap.arm interval
  | reset => exact h.reset.arm interval

end Camera

namespace Ledger

variable {c : Camera} {b : Ledger c.device}

/-- The clock shows the device time. -/
structure ClockShowsTime (b : Ledger c.device) : Prop where
  wrapUnit_eq : b.decoder.clock.wrapUnit = c.device.wrapUnit
  tells : b.decoder.clock.Tells (c.elapsed b.units)

theorem tells_of_made {a : Applied c.device} {s : Settled c.device} (hmade : Decoder.Made a s)
    {e : Elapsed} (h : a.decoder.clock.Tells e) :
    s.decoder.clock.wrapUnit = a.decoder.clock.wrapUnit ∧ s.decoder.clock.Tells e := by
  rcases hmade.clock_eq with hclock | hclock
  · rw [hclock]
    exact ⟨rfl, h⟩
  · rw [hclock]
    refine ⟨?_, h.postpone _⟩
    unfold Clock.postpone
    split
    · split <;> rfl
    · rfl

/-- The mark of a unit keeps the clock at the device time. -/
theorem ClockShowsTime.tells_unit (h : b.ClockShowsTime) (unit : List UInt8) :
    ((c.mark unit).move b.decoder.collector.interval b.decoder.clock).Tells
      (c.elapsed (b.units ++ [unit])) := by
  rw [c.elapsed_append_singleton]
  exact Camera.tells_move h.tells h.wrapUnit_eq unit b.decoder.collector.interval

theorem ClockShowsTime.epoch_now (h : b.ClockShowsTime) : b.decoder.clock.epoch = c.epoch b.units := by
  rw [h.tells.epoch_eq, h.wrapUnit_eq]
  rfl

theorem ClockShowsTime.epoch_unit (h : b.ClockShowsTime) (unit : List UInt8) :
    c.epoch (b.units ++ [unit]) =
      ((c.mark unit).move b.decoder.collector.interval b.decoder.clock).epoch := by
  rw [(h.tells_unit unit).epoch_eq, Mark.wrapUnit_move, h.wrapUnit_eq]
  rfl

theorem ClockShowsTime.epochs_unit (h : b.ClockShowsTime) (unit : List UInt8) :
    c.epochs (b.units ++ [unit]) =
      Forced.nextEpoch ((c.mark unit).forces b.decoder.clock) (c.epochs b.units) := by
  have hafter : c.epochs (b.units ++ [unit]) =
      ((c.elapsed b.units).after (c.mark unit)).epochs b.decoder.clock.wrapUnit := by
    rw [Camera.epochs, c.elapsed_append_singleton, h.wrapUnit_eq]
  rw [hafter, Camera.epochs_after h.tells, h.wrapUnit_eq]
  rfl

theorem clock_applyUnit (b : Ledger c.device) (unit : List UInt8) :
    (b.decoder.applyUnit unit).decoder.clock =
      (c.mark unit).move b.decoder.collector.interval b.decoder.clock := by
  obtain ⟨body, hleads⟩ := c.leads b.decoder.device unit
  exact Decoder.clock_forEach_leads hleads _

/-- No step takes the clock off the device time, not even one that fails. -/
theorem ClockShowsTime.advance (h : b.ClockShowsTime) (m : Move) : (b.advance m).ClockShowsTime := by
  have hmade := b.decoder.make_made m
  cases m with
  | rest =>
    obtain ⟨hunit, htells⟩ := tells_of_made hmade h.tells
    exact ⟨hunit.trans h.wrapUnit_eq, htells⟩
  | unit unit =>
    have hmoved := b.clock_applyUnit unit
    obtain ⟨hunit, htells⟩ := tells_of_made hmade (hmoved ▸ h.tells_unit unit)
    have hsame := (congrArg Clock.wrapUnit hmoved).trans (Mark.wrapUnit_move ..)
    exact ⟨(hunit.trans hsame).trans h.wrapUnit_eq, htells⟩

theorem ClockShowsTime.run (h : b.ClockShowsTime) (moves : List Move) : (b.run moves).ClockShowsTime := by
  induction moves generalizing b with
  | nil => exact h
  | cons m moves ih => exact ih (h.advance m)

theorem ClockShowsTime.count (h : b.ClockShowsTime) (hs : List Handover) : (b.count hs).ClockShowsTime :=
  ⟨h.wrapUnit_eq, h.tells⟩

theorem clockShowsTime_start {settings : Settings} {d : Decoder c.device}
    (h : Decoder.start c.device settings = .ok d) : ClockShowsTime { decoder := d } := by
  have hfresh := Decoder.start_ok h
  refine ⟨?_, ?_⟩
  · rw [hfresh.clock_eq]
    rfl
  · rw [hfresh.clock_eq]
    exact Clock.tells_start c

/-- The clock shows the device time, the buffers are in the epoch of the clock, and every event but
a marker is stamped with the device time at which it was added. -/
structure EventsTimed (b : Ledger c.device) : Prop where
  wrapUnit_eq : b.decoder.clock.wrapUnit = c.device.wrapUnit
  tells : b.decoder.clock.Tells (c.elapsed b.units)
  epoch_eq : ∀ k, (b.decoder.buffer k).epoch = b.decoder.clock.epoch
  added : ∀ k, ∀ a ∈ b.added k, a.past <+: b.units ∧ (k.isMarker a.record = false →
    a.epoch = c.epoch a.past ∧ c.epochs a.past * epochLength + k.time a.record = c.time a.past ∧
      0 ≤ k.time a.record ∧ k.time a.record ≤ maxTime)

theorem EventsTimed.clockShowsTime (h : b.EventsTimed) : b.ClockShowsTime :=
  ⟨h.wrapUnit_eq, h.tells⟩

/-- What a unit adds, apart from markers, is stamped with the device time after its mark. -/
theorem EventsTimed.of_mem_additions (h : b.EventsTimed) {unit : List UInt8} {k : EventKind} {a : Added k}
    (ha : a ∈ b.addedBy unit k) :
    a.past = b.units ++ [unit] ∧ (k.isMarker a.record = false →
      a.epoch = c.epoch a.past ∧ c.epochs a.past * epochLength + k.time a.record = c.time a.past ∧
        0 ≤ k.time a.record ∧ k.time a.record ≤ maxTime) := by
  obtain ⟨body, hleads⟩ := c.leads b.decoder.device unit
  obtain ⟨hpast, hepoch, htime⟩ := Decoder.mem_additions_leads hleads ha
  refine ⟨hpast, fun hmarker => ?_⟩
  obtain ⟨hfills, hstamp⟩ := htime hmarker
  have htells := h.clockShowsTime.tells_unit unit
  have hquiet := Mark.forces_of_not_fillsUnit hfills b.decoder.clock
  have hepoch' : a.epoch =
      ((c.mark unit).move b.decoder.collector.interval b.decoder.clock).epoch :=
    (hepoch.trans (h.epoch_eq k)).trans (Mark.epoch_move hquiet _).symm
  have htime' : k.time a.record =
      ((c.mark unit).move b.decoder.collector.interval b.decoder.clock).current := hstamp
  rw [hepoch', htime', hpast]
  refine ⟨(h.clockShowsTime.epoch_unit unit).symm, ?_, htells.current_nonneg, htells.current_le⟩
  have htime := htells.time_eq
  rwa [Mark.wrapUnit_move, h.wrapUnit_eq] at htime

theorem EventsTimed.advance (h : b.EventsTimed) {m : Move} (hok : (b.decoder.make m).result.isOk) :
    (b.advance m).EventsTimed := by
  have hmade := b.decoder.make_made m
  obtain ⟨forced, hforced⟩ := hmade.exists_forced hok
  obtain ⟨hunit, htells⟩ := h.clockShowsTime.advance m
  cases m with
  | rest => exact ⟨hunit, htells, hmade.epoch_eq hok fun _ => h.epoch_eq, h.added⟩
  | unit unit =>
    obtain ⟨body, hleads⟩ := c.leads b.decoder.device unit
    have hforces := Decoder.forced_forEach_leads hleads hforced
    have hbuffer (k : EventKind) :
        ((b.decoder.applyUnit unit).decoder.buffer k).epoch = b.decoder.clock.epoch :=
      (Decoder.epoch_forEach_apply _ _ k).trans (h.epoch_eq k)
    refine ⟨hunit, htells, hmade.epoch_eq hok fun hnone k => ?_, fun k a ha => ?_⟩
    · have hquiet : (c.mark unit).forces b.decoder.clock = none :=
        hforces.symm.trans (Except.ok.inj (hforced.symm.trans hnone))
      refine (hbuffer k).trans ?_
      exact ((congrArg Clock.epoch (b.clock_applyUnit unit)).trans
        (Mark.epoch_move hquiet _)).symm
    · rcases List.mem_append.1 ha with ha | ha
      · obtain ⟨hpast, htime⟩ := h.added k a ha
        exact ⟨hpast.trans (List.prefix_append ..), htime⟩
      · obtain ⟨hpast, htime⟩ := h.of_mem_additions ha
        exact ⟨hpast ▸ List.prefix_rfl, htime⟩

theorem Succeeds.eventsTimed {moves : List Move} (h : b.Succeeds moves) (htimed : b.EventsTimed) :
    (b.run moves).EventsTimed :=
  h.induction (fun htimed hok => htimed.advance hok) htimed

/-- What no step breaks while the units meet a condition, holds after a run whose units meet it. A
condition on units is one on those before them as well. -/
theorem Succeeds.induction_units {P : Ledger c.device → Prop} {Q : List (List UInt8) → Prop}
    {moves : List Move} (h : b.Succeeds moves) (htimed : b.EventsTimed)
    (hpast : ∀ {past units}, past <+: units → Q units → Q past)
    (hstep : ∀ {b : Ledger c.device} {m : Move}, b.EventsTimed → P b →
      (b.decoder.make m).result.isOk → Q (b.advance m).units → P (b.advance m))
    (hb : P b) (hunits : Q (b.run moves).units) : P (b.run moves) := by
  have hboth : (b.run moves).EventsTimed ∧ (Q (b.run moves).units → P (b.run moves)) := by
    refine h.induction (P := fun b => b.EventsTimed ∧ (Q b.units → P b))
      (fun {b m} hb hok => ⟨hb.1.advance hok, fun hunits => ?_⟩) ⟨htimed, fun _ => hb⟩
    have hearlier := hpast (b.units_prefix_run [m]) hunits
    exact hstep hb.1 (hb.2 hearlier) hok hunits
  exact hboth.2 hunits

theorem EventsTimed.count (h : b.EventsTimed) (hs : List Handover) : (b.count hs).EventsTimed :=
  ⟨h.wrapUnit_eq, h.tells, h.epoch_eq, h.added⟩

theorem eventsTimed_start {settings : Settings} {d : Decoder c.device}
    (h : Decoder.start c.device settings = .ok d) : EventsTimed { decoder := d } := by
  have hfresh := Decoder.start_ok h
  obtain ⟨hunit, htells⟩ := clockShowsTime_start h
  refine ⟨hunit, htells, fun k => ?_, nofun⟩
  rw [hfresh.clock_eq]
  exact hfresh.epoch_eq k

/-- As long as the epochs fit their counter, the clock shows the device time. -/
theorem EventsTimed.full_eq (h : b.EventsTimed) (hrange : c.epochs b.units < 2 ^ 31) :
    b.decoder.clock.full = c.time b.units := by
  have hfull := h.tells.full_eq (by rwa [h.wrapUnit_eq])
  rwa [h.wrapUnit_eq] at hfull

theorem EventsTimed.full_unit (h : b.EventsTimed) {unit : List UInt8}
    (hrange : c.epochs (b.units ++ [unit]) < 2 ^ 31) :
    ((c.mark unit).move b.decoder.collector.interval b.decoder.clock).full =
      c.time (b.units ++ [unit]) := by
  have htells := h.clockShowsTime.tells_unit unit
  have hfull := htells.full_eq (by rwa [Mark.wrapUnit_move, h.wrapUnit_eq])
  rwa [Mark.wrapUnit_move, h.wrapUnit_eq] at hfull

/-- Every event but a marker is found, in its container or its buffer, with the device time at which
it was added as its full time; and the clock shows the device time. -/
structure OnTime (b : Ledger c.device) : Prop extends EventsTimed b where
  now : b.decoder.clock.full = c.time b.units
  times : ∀ k, ((sealedEvents b.sealed k ++ (b.decoder.buffer k).stamped).filter
      fun s => !k.isMarker s.1).map (fun s => (s.1, fullTime s.2 (k.time s.1))) =
    ((b.added k).filter fun a => !k.isMarker a.record).map fun a => (a.record, c.time a.past)

theorem EventsTimed.onTime (h : b.EventsTimed) (hconserved : b.Conserved)
    (hepochs : ∀ units, units <+: b.units → c.epochs units < 2 ^ 31 - 1) : b.OnTime := by
  refine { toEventsTimed := h, now := ?_, times := fun k => ?_ }
  · exact h.full_eq (Int.lt_trans (hepochs b.units List.prefix_rfl) (by decide))
  · rw [hconserved.events k, List.filter_map, List.map_map]
    refine List.map_congr_left fun a ha => ?_
    obtain ⟨ha, hmarker⟩ := List.mem_filter.1 ha
    obtain ⟨hpast, hadded⟩ := h.added k a ha
    have hplain : k.isMarker a.record = false := by simpa [Added.stamped] using hmarker
    obtain ⟨hepoch, htime, hnonneg, hle⟩ := hadded hplain
    have hlt := hepochs a.past hpast
    have hfull := fullTime_eq (Int.le_trans (by decide) (c.epochs_nonneg a.past)) (by omega) hnonneg hle
    simp only [Function.comp, Added.stamped]
    rw [hepoch, c.epoch_eq_of_lt (by omega), hfull, htime]

end Ledger

/-- As long as no call fails and the acquisition is wanted, every event of a camera has the exact
device time, over any number of wraps and resets. -/
theorem session_onTime {c : Camera} {settings : Settings} {d d' : Decoder c.device}
    {calls : List Call} {x x' : Exchange} {log : List Occurrence}
    {results : List (Except DecodeError Unit)}
    (hstart : Decoder.start c.device settings = .ok d)
    (h : Execution (session Decoder.call calls d) x log (d', results) x')
    (hok : ∀ r ∈ results, r.isOk) (hsteady : Steady (stepsOf log))
    (hepochs : ∀ units, units <+: calls.flatMap (Call.units c.device.unitWidth) →
      c.epochs units < 2 ^ 31 - 1) :
    ∃ b : Ledger c.device,
      Execution (session Ledger.call calls { decoder := d }) x log (b, results) x' ∧
      b.decoder = d' ∧ b.units = calls.flatMap (Call.units c.device.unitWidth) ∧
      b.sealed = (handovers (stepsOf log)).map Handover.sealed ∧ b.OnTime := by
  obtain ⟨b, moves, hb, hd, hwhole⟩ := Ledger.exists_whole hstart h hok hsteady
  have htimed : b.EventsTimed := by
    rw [hwhole.end_eq]
    exact (hwhole.succeeds.eventsTimed (Ledger.eventsTimed_start hstart)).count _
  exact ⟨b, hb, hd, hwhole.units_eq, hwhole.sealed_eq,
    htimed.onTime hwhole.conserved (hwhole.units_eq ▸ hepochs)⟩

theorem session_onTime_dvs128 :
    ∃ (d d' : Decoder Camera.dvs128.device) (log : List Occurrence)
      (results : List (Except DecodeError Unit)) (x' : Exchange),
      Decoder.start Camera.dvs128.device {} = .ok d ∧
      Execution (session Decoder.call sampleCalls d) (.start 3) log (d', results) x' ∧
      (∀ r ∈ results, r.isOk) ∧ Steady (stepsOf log) ∧
      ∃ b : Ledger Camera.dvs128.device,
        Execution (session Ledger.call sampleCalls { decoder := d }) (.start 3) log (b, results) x' ∧
        b.decoder = d' ∧ b.units = sampleCalls.flatMap (Call.units 4) ∧
        b.sealed = (handovers (stepsOf log)).map Handover.sealed ∧ b.OnTime := by
  have hrun : undisturbed Camera.dvs128.device {} sampleCalls (.start 3) := by decide +kernel
  have hlength : (sampleCalls.flatMap (Call.units 4)).length = 5 := by decide +kernel
  obtain ⟨d, d', results, log, x', hd, h, hok, hsteady⟩ := exists_of_undisturbed hrun
  refine ⟨d, d', log, results, x', hd, h, hok, hsteady, session_onTime hd h hok hsteady ?_⟩
  intro units hunits
  have hle := Camera.dvs128.epochs_le_length units
  have := hlength ▸ hunits.length_le
  omega

end EventCamera
