import EventCamera.Proofs.Order

/-! # The recorded time of a container

A container records the time at which it was sealed. No event in it is ahead of that time, as long as
it is not a reset that seals it: a reset starts the time over before the events are taken out. -/

namespace EventCamera

/-! ## The last events of a container -/

theorem max?_le_iff_forall {times : List Int} {n : Int} :
    (∀ time ∈ times.max?, time ≤ n) ↔ ∀ time ∈ times, time ≤ n := by
  cases hmax : times.max? with
  | none =>
    rw [List.max?_eq_none_iff.1 hmax]
    exact ⟨fun _ => List.forall_mem_nil _, fun _ => nofun⟩
  | some greatest => simp only [Option.mem_some_iff, forall_eq', List.max?_le_iff hmax]

theorem forall_getLast?_le_iff {times : List Int} (h : times.Pairwise (· ≤ ·)) {n : Int} :
    (∀ time ∈ times.getLast?, time ≤ n) ↔ ∀ time ∈ times, time ≤ n := by
  rcases times.eq_nil_or_concat with rfl | ⟨before, last, rfl⟩
  · exact ⟨fun _ => List.forall_mem_nil _, fun _ => nofun⟩
  · rw [List.concat_eq_append] at h ⊢
    simp only [List.getLast?_concat, Option.mem_some_iff, forall_eq']
    refine ⟨fun hle time htime => ?_, fun hle => hle last (by simp)⟩
    rcases List.mem_append.1 htime with htime | htime
    · exact Int.le_trans ((List.pairwise_append.1 h).2.2 time htime last (by simp)) hle
    · rw [List.mem_singleton.1 htime]
      exact hle

namespace Container

/-- The recorded time is not behind the last events. -/
def CoversEvents (c : Container) : Prop :=
  ∀ time ∈ c.highestEventTime?, time ≤ c.highest

instance (c : Container) : Decidable c.CoversEvents :=
  inferInstanceAs (Decidable (∀ time ∈ c.highestEventTime?, time ≤ c.highest))

theorem bind_lastTime? (c : Container) (k : EventKind) :
    (c.buffer? k).bind Buffer.lastTime? = (c.times k).getLast? := by
  unfold times stamped
  cases c.buffer? k with
  | none => rfl
  | some b =>
    have hlast : b.events.toList.getLast? = b.events.back? := by simp
    simp only [Option.bind_some, Option.elim_some, Buffer.lastTime?, Buffer.stamped,
      List.getLast?_map, hlast, Option.map_map]
    congr

/-- If the events of each kind are in the order of their times, the recorded time is not behind any
of them. -/
theorem coversEvents_iff {c : Container} (h : ∀ k, (c.times k).Pairwise (· ≤ ·)) :
    c.CoversEvents ↔ ∀ k, ∀ time ∈ c.times k, time ≤ c.highest := by
  unfold CoversEvents highestEventTime?
  rw [max?_le_iff_forall]
  simp only [List.mem_filterMap, bind_lastTime?, forall_exists_index, and_imp]
  refine ⟨fun hle k => ?_, fun hle time k _ htime => hle k time (List.mem_of_getLast? htime)⟩
  exact (forall_getLast?_le_iff (h k)).1 fun time htime => hle time k k.mem_all htime

end Container

/-! ## Steps -/

def Camera.Restarts (c : Camera) (m : Move) : Prop :=
  ∃ unit ∈ m.unit?, c.mark unit = .reset

theorem Camera.time_reset {c : Camera} {unit : List UInt8} (h : c.mark unit = .reset)
    (past : List (List UInt8)) : c.time (past ++ [unit]) = 0 := by
  simp only [time, elapsed_append_singleton, h, Elapsed.after, Elapsed.time]
  simp

namespace Ledger

variable {c : Camera} {b : Ledger c.device} {m : Move} {container : Container}

/-- A container records the device time after the step that seals it. -/
theorem EventsTimed.highest_eq (h : b.EventsTimed) (hrange : c.InRange (b.advance m).units)
    (hc : .data container ∈ (b.decoder.make m).handedOn) :
    container.highest = c.time (b.advance m).units := by
  have hepochs := hrange _ List.prefix_rfl
  obtain ⟨forced, sealing, -, htaken, rfl, -⟩ := (b.decoder.make_made m).exists_emptied hc
  refine htaken.highest_eq.trans ?_
  cases m with
  | unit unit => exact (congrArg Clock.full (b.clock_applyUnit unit)).trans (h.full_unit hepochs)
  | rest => exact h.full_eq hepochs

/-- The events that a step seals were added since the last reset before it. -/
theorem SplitByResets.exists_added (h : b.SplitByResets)
    (hc : .data container ∈ (b.decoder.make m).handedOn)
    {k : EventKind} {e : k.Record × Int} (he : e ∈ container.stamped k) :
    ∃ a ∈ (b.advance m).added k, a.stamped = e ∧ c.resets a.past = c.resets b.units := by
  have hwaiting {e : k.Record × Int} (he : (e, c.resets b.units) ∈
      (b.decoder.buffer k).stamped.map (·, c.resets b.units)) :
      ∃ a ∈ b.added k, (a.stamped, c.resets a.past) = (e, c.resets b.units) := by
    have hmem := List.mem_append_right (numbered k b.sealed 0) he
    rw [h.numbered_eq k] at hmem
    exact List.mem_map.1 hmem
  rw [(b.decoder.make_made m).stamped_of_mem hc k] at he
  have hnumbered := List.mem_map_of_mem (f := (·, c.resets b.units)) he
  cases m with
  | rest =>
    obtain ⟨a, ha, heq⟩ := hwaiting hnumbered
    exact ⟨a, ha, Prod.mk.inj heq⟩
  | unit unit =>
    rw [numbered_unit unit k] at hnumbered
    rcases List.mem_append.1 hnumbered with hmem | hmem
    · obtain ⟨a, ha, heq⟩ := hwaiting hmem
      exact ⟨a, List.mem_append_left _ ha, Prod.mk.inj heq⟩
    · obtain ⟨a, ha, heq⟩ := List.mem_map.1 hmem
      exact ⟨a, List.mem_append_right _ ha, Prod.mk.inj heq⟩

/-- What is sealed by a step that is not a reset, is not ahead of the device time. -/
theorem Ordered.times_le (h : (b.advance m).Ordered) (hbyResets : b.SplitByResets)
    (hrange : c.InRange (b.advance m).units) (hm : ¬ c.Restarts m)
    (hc : .data container ∈ (b.decoder.make m).handedOn) {k : EventKind} {time : Int}
    (htime : time ∈ container.times k) : time ≤ c.time (b.advance m).units := by
  obtain ⟨e, he, rfl⟩ := List.mem_map.1 htime
  obtain ⟨a, ha, rfl, hresets⟩ := hbyResets.exists_added hc he
  rw [h.fullTime_eq hrange ha]
  refine h.le_now k a ha (hresets.trans ?_)
  cases m with
  | rest => rfl
  | unit unit =>
    have hne : c.mark unit ≠ .reset := fun hreset => hm ⟨unit, rfl, hreset⟩
    change _ = c.resets (b.units ++ [unit])
    rw [c.resets_append_singleton, if_neg hne, Nat.add_zero]

theorem Ordered.times_nonneg (h : (b.advance m).Ordered) (hbyResets : b.SplitByResets)
    (hrange : c.InRange (b.advance m).units)
    (hc : .data container ∈ (b.decoder.make m).handedOn) {k : EventKind} {time : Int}
    (htime : time ∈ container.times k) : 0 ≤ time := by
  obtain ⟨e, he, rfl⟩ := List.mem_map.1 htime
  obtain ⟨a, ha, rfl, -⟩ := hbyResets.exists_added hc he
  rw [h.fullTime_eq hrange ha, Added.time]
  obtain ⟨past, hpast, hepoch⟩ := h.epoch k a ha
  have hnonneg := c.epochs_nonneg past
  have htime := (h.time k a ha).1
  rw [← c.epoch_eq_of_lt (hrange past hpast), ← hepoch] at hnonneg
  have := Int.mul_nonneg hnonneg (Int.le_of_lt epochLength_pos)
  omega

/-- What a reset seals is what waits before it. -/
theorem times_of_restarts (hm : c.Restarts m)
    (hc : .data container ∈ (b.decoder.make m).handedOn) (k : EventKind) :
    container.times k = (b.decoder.buffer k).stamped.map k.fullTime := by
  obtain ⟨unit, hunit, hreset⟩ := hm
  cases m with
  | rest => cases hunit
  | unit unit' =>
    obtain rfl : unit' = unit := Option.some.inj hunit
    have hstamped := (b.decoder.make_made (.unit unit')).stamped_of_mem hc k
    have hadded := b.stamped_applyUnit unit' k
    rw [addedBy_reset hreset, List.map_nil, List.append_nil] at hadded
    exact congrArg (List.map k.fullTime) (hstamped.trans hadded)

theorem exists_sealed_of_restarts (hm : c.Restarts m) (hok : (b.decoder.make m).result.isOk)
    {k : EventKind} (hwaits : (b.decoder.buffer k).stamped ≠ []) :
    ∃ container, .data container ∈ (b.decoder.make m).handedOn := by
  obtain ⟨unit, hunit, hreset⟩ := hm
  cases m with
  | rest => cases hunit
  | unit unit' =>
    obtain rfl : unit' = unit := Option.some.inj hunit
    have hmade := b.decoder.make_made (.unit unit')
    obtain ⟨forced, hforced⟩ := hmade.exists_forced hok
    obtain ⟨body, hleads⟩ := c.leads b.decoder.device unit'
    have hforces := Decoder.forced_forEach_leads hleads hforced
    rw [hreset] at hforces
    obtain ⟨data?, reset?, heq, -, hnone⟩ := hmade.exists_handedOn hok hforced
    cases data? with
    | some container =>
      refine ⟨container, ?_⟩
      rw [heq]
      exact List.mem_cons_self
    | none =>
      refine absurd ?_ hwaits
      have hmoved := hnone rfl (by rw [hforces]; rfl) k
      exact (List.append_eq_nil_iff.1 ((b.stamped_applyUnit unit' k).symm.trans hmoved)).1

/-- What the recorded time of a container says that a step seals. -/
structure Recorded (b : Ledger c.device) (m : Move) (container : Container) : Prop where
  highest_eq : container.highest = c.time (b.advance m).units
  covers_iff : container.CoversEvents ↔ ∀ k, ∀ time ∈ container.times k, time ≤ container.highest
  covers : ¬ c.Restarts m → container.CoversEvents
  highest_of_reset : c.Restarts m → container.highest = 0
  covers_iff_of_reset : c.Restarts m →
    (container.CoversEvents ↔ ∀ k, ∀ e ∈ (b.decoder.buffer k).stamped, k.fullTime e = 0)

theorem Ordered.recorded (h : (b.advance m).Ordered) (htimed : b.EventsTimed)
    (hbyResets : b.SplitByResets)
    (hok : (b.decoder.make m).result.isOk) (hrange : c.InRange (b.advance m).units)
    (hc : .data container ∈ (b.decoder.make m).handedOn) : b.Recorded m container := by
  have hhighest := htimed.highest_eq hrange hc
  have hpairwise (k : EventKind) : (container.times k).Pairwise (· ≤ ·) := by
    have hmem : Sealed.data container ∈ (b.advance m).sealed := by
      rw [sealed_advance]
      exact List.mem_append_right _ hc
    obtain ⟨before, after, heq⟩ := List.append_of_mem hmem
    have hpart : [.data container] <:+: (b.advance m).sealed := ⟨before, after, by rw [heq]; simp⟩
    have htimes := h.times (hbyResets.advance hok) hrange hpart (List.forall_mem_singleton.2 rfl) k
    simpa [sealedEvents, Sealed.stamped, Container.times] using htimes
  have hcovers := Container.coversEvents_iff hpairwise
  have hreset (hm : c.Restarts m) : container.highest = 0 := by
    obtain ⟨unit, hunit, hreset⟩ := hm
    cases m with
    | rest => cases hunit
    | unit unit' =>
      obtain rfl : unit' = unit := Option.some.inj hunit
      exact hhighest.trans (Camera.time_reset hreset b.units)
  refine ⟨hhighest, hcovers, fun hm => hcovers.2 fun k time htime => ?_, hreset, fun hm => ?_⟩
  · rw [hhighest]
    exact h.times_le hbyResets hrange hm hc htime
  · rw [hcovers, hreset hm]
    refine forall_congr' fun k => ?_
    rw [← List.forall_mem_map (f := k.fullTime) (P := (· = 0)), ← times_of_restarts hm hc]
    refine forall₂_congr fun time htime => ?_
    have := h.times_nonneg hbyResets hrange hc htime
    omega

/-! ## Runs -/

/-- The containers of a run record the times at which they were sealed. They all cover their events if
and only if no reset finds an event waiting that is later than time zero. -/
structure AllRecorded (b : Ledger c.device) (moves : List Move) : Prop where
  exists_step : ∀ container, .data container ∈ (b.run moves).sealed → ∃ past m,
    past ++ [m] <+: moves ∧ .data container ∈ ((b.run past).decoder.make m).handedOn
  recorded : ∀ past m, past ++ [m] <+: moves →
    ∀ container, .data container ∈ ((b.run past).decoder.make m).handedOn →
      (b.run past).Recorded m container
  covers_iff : (∀ container, .data container ∈ (b.run moves).sealed → container.CoversEvents) ↔
    ∀ past m, past ++ [m] <+: moves → c.Restarts m →
      ∀ k, ∀ e ∈ ((b.run past).decoder.buffer k).stamped, k.fullTime e = 0

/-- While no step fails, a run whose time goes forward records the times of its containers. -/
theorem Succeeds.allRecorded {moves : List Move} (h : b.Succeeds moves) (htimed : b.EventsTimed)
    (hbyResets : b.SplitByResets) (hordered : b.Ordered) (hsealed : b.sealed = [])
    (hforward : c.Forward (b.run moves).units) (hrange : c.InRange (b.run moves).units) :
    b.AllRecorded moves := by
  have hstep (past : List Move) (m : Move) (hpast : past ++ [m] <+: moves) :
      ((b.run past).decoder.make m).result.isOk ∧
        ∀ container, .data container ∈ ((b.run past).decoder.make m).handedOn →
          (b.run past).Recorded m container := by
    obtain ⟨later, rfl⟩ := hpast
    have hunits : (b.run (past ++ [m])).units <+: (b.run (past ++ [m] ++ later)).units := by
      rw [run_append b (past ++ [m])]
      exact units_prefix_run ..
    have hupto := (succeeds_append.1 h).1
    obtain ⟨hbefore, hok, -⟩ := succeeds_append.1 hupto
    have hthen := hupto.ordered htimed hordered (hforward.of_prefix hunits) (hrange.of_prefix hunits)
    rw [run_append] at hthen hunits
    refine ⟨hok, fun container hc => hthen.recorded ?_ ?_ hok (hrange.of_prefix hunits) hc⟩
    · exact hbefore.eventsTimed htimed
    · exact hbefore.induction (fun h hok => h.advance hok) hbyResets
  have hexists (container : Container) (hc : .data container ∈ (b.run moves).sealed) :
      ∃ past m, past ++ [m] <+: moves ∧
        .data container ∈ ((b.run past).decoder.make m).handedOn := by
    refine (exists_step_of_sealed hc).resolve_left fun hb => ?_
    rw [hsealed] at hb
    cases hb
  refine ⟨hexists, fun past m hpast => (hstep past m hpast).2, fun hall => ?_, fun hzero => ?_⟩
  · intro past m hpast hm k e he
    obtain ⟨hok, hrecorded⟩ := hstep past m hpast
    obtain ⟨container, hc⟩ := exists_sealed_of_restarts hm hok (List.ne_nil_of_mem he)
    exact ((hrecorded container hc).covers_iff_of_reset hm).1
      (hall container (mem_sealed_of_step hpast hc)) k e he
  · intro container hc
    obtain ⟨past, m, hpast, hc⟩ := hexists container hc
    have hrecorded := (hstep past m hpast).2 container hc
    by_cases hm : c.Restarts m
    · exact (hrecorded.covers_iff_of_reset hm).2 (hzero past m hpast hm)
    · exact hrecorded.covers hm

end Ledger

/-- As long as no call fails, a container of a camera whose time goes back at resets only records a time
that is not behind its events, unless a reset seals it: it records time zero then. -/
theorem session_allRecorded {c : Camera} {settings : Settings} {d d' : Decoder c.device}
    {calls : List Call} {x x' : Exchange} {log : List Occurrence}
    {results : List (Except DecodeError Unit)}
    (hstart : Decoder.start c.device settings = .ok d)
    (h : Execution (session Decoder.call calls d) x log (d', results) x')
    (hok : ∀ r ∈ results, r.isOk) :
    ∃ (b : Ledger c.device) (moves : List Move),
      Execution (session Ledger.call calls { decoder := d }) x log (b, results) x' ∧
      b.decoder = d' ∧ b.Flawless d calls log moves ∧
      (c.Forward b.units → c.InRange b.units →
        Ledger.AllRecorded { decoder := d } moves) := by
  obtain ⟨b, moves, hb, hd, hflawless⟩ := Ledger.exists_flawless hstart h hok
  refine ⟨b, moves, hb, hd, hflawless, fun hforward hrange => ?_⟩
  rw [hflawless.end_eq] at hforward hrange
  exact hflawless.succeeds.allRecorded (Ledger.eventsTimed_start hstart) (Ledger.splitByResets_start hstart)
    (Ledger.ordered_start d) rfl hforward hrange

theorem session_allRecorded_dvs128 :
    ∃ (d d' : Decoder Camera.dvs128.device) (log : List Occurrence)
      (results : List (Except DecodeError Unit)) (x' : Exchange),
      Decoder.start Camera.dvs128.device {} = .ok d ∧
      Execution (session Decoder.call sampleCalls d) (.start 3) log (d', results) x' ∧
      (∀ r ∈ results, r.isOk) ∧
      ∃ (b : Ledger Camera.dvs128.device) (moves : List Move),
        Execution (session Ledger.call sampleCalls { decoder := d }) (.start 3) log (b, results) x' ∧
        b.decoder = d' ∧ b.Flawless d sampleCalls log moves ∧
        b.units = sampleCalls.flatMap (Call.units 4) ∧
        Ledger.AllRecorded { decoder := d } moves := by
  have hrun : undisturbed Camera.dvs128.device {} sampleCalls (.start 3) := by decide +kernel
  have hforward : Camera.dvs128.Forward (sampleCalls.flatMap (Call.units 4)) := by decide +kernel
  have hlength : (sampleCalls.flatMap (Call.units 4)).length = 5 := by decide +kernel
  obtain ⟨d, d', results, log, x', hd, h, hok, hsteady⟩ := exists_of_undisturbed hrun
  obtain ⟨b, moves, hb, hd', hflawless, hrecorded⟩ := session_allRecorded hd h hok
  have hunits : b.units = sampleCalls.flatMap (Call.units 4) := hflawless.units_eq hsteady
  refine ⟨d, d', log, results, x', hd, h, hok, b, moves, hb, hd', hflawless, hunits,
    hrecorded (hunits ▸ hforward) fun past hpast => ?_⟩
  have hle := Camera.dvs128.epochs_le_length past
  have := hlength ▸ hunits ▸ hpast.length_le
  omega

open Wire.Dvs128 in
/-- A pixel of a DVS128, and a reset that seals it. -/
def pixelThenReset : List Call :=
  [.decode (encode (address 3 4 true) 100 0 ++ encodeReset)]

/-- The container that a reset seals records time zero, behind its event. -/
theorem not_coversEvents_pixelThenReset :
    Camera.dvs128.Forward (pixelThenReset.flatMap (Call.units 4)) ∧
    ∃ (d d' : Decoder Camera.dvs128.device) (log : List Occurrence)
      (results : List (Except DecodeError Unit)) (x' : Exchange),
      Decoder.start Camera.dvs128.device {} = .ok d ∧
      Execution (session Decoder.call pixelThenReset d) (.start 3) log (d', results) x' ∧
      (∀ r ∈ results, r.isOk) ∧
      ∃ container ∈ pushed log, container.isReset = false ∧ ¬ container.CoversEvents := by
  have hrun : comesTo Camera.dvs128.device {} pixelThenReset (.start 3) fun steps results =>
      results.all Except.isOk && (pushed (steps.map .acted)).any fun container =>
        decide (container.isReset = false ∧ ¬ container.CoversEvents) := by decide +kernel
  obtain ⟨d, d', results, steps, x', hd, h, htest⟩ := exists_of_comesTo hrun
  obtain ⟨hok, hany⟩ := Bool.and_eq_true_iff.1 htest
  obtain ⟨container, hmem, hbehind⟩ := List.any_eq_true.1 hany
  exact ⟨by decide +kernel, d, d', steps.map .acted, results, x', hd, h, List.all_eq_true.1 hok,
    container, hmem, of_decide_eq_true hbehind⟩

end EventCamera
