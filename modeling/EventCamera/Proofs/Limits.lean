import EventCamera.Proofs.Epochs
import EventCamera.Proofs.Framing
import EventCamera.Proofs.Headroom
import EventCamera.Proofs.Pixels
import EventCamera.Proofs.Running
import EventCamera.Proofs.Triggers
import EventCamera.Proofs.Window

/-! # The limits of windows and order

The counter of epochs is a signed number of 32 bits. When it runs over, the full time falls far behind:
the deadline stays where it was, and the next marker is told before the last one. Windows and order
also end where a stream is not decoded as it was sent, and the order where a reset is abandoned. -/

namespace EventCamera

/-! ## The end of an epoch -/

namespace Camera

variable (c : Camera)

/-- A unit takes the device time into the next epoch at most. -/
theorem epochs_append_singleton_le (units : List (List UInt8)) (unit : List UInt8) :
    c.epochs (units ++ [unit]) ≤ c.epochs units + 1 := by
  have hnonneg := c.epochs_nonneg units
  obtain ⟨hpos, hunit, -⟩ := c.wrapUnit_spec
  rw [epochs, c.elapsed_append_singleton]
  cases hm : c.mark unit with
  | silent | tick => exact Int.le_add_one (Int.le_refl _)
  | turns count =>
    have hjump : c.device.wrapUnit * count ≤ 2 ^ 15 * 2 ^ 12 :=
      Int.mul_le_mul hunit (by have := count_lt hm; omega) (Int.natCast_nonneg _) (by decide)
    simp only [epochs, Elapsed.epochs, Elapsed.after, epochLength, Int.natCast_add, Int.mul_add]
      at hnonneg ⊢
    omega
  | reset =>
    have hzero : ((c.elapsed units).after .reset).epochs c.device.wrapUnit = 0 := by
      simp [Elapsed.epochs, Elapsed.after]
    omega

variable {c}

/-- A device that is past an epoch has ended it since its last reset. -/
theorem exists_endsEpoch {units : List (List UInt8)} {n : Int} (hn : 0 ≤ n)
    (hlt : n < c.epochs units) : ∃ past unit later, units = past ++ unit :: later ∧
      c.epochs past = n ∧ c.EndsEpoch past unit := by
  induction units using List.reverseRecOn with
  | nil =>
    rw [c.epochs_nil] at hlt
    omega
  | append_singleton units unit ih =>
    by_cases hearlier : n < c.epochs units
    · obtain ⟨past, unit', later, rfl, hpast, hends⟩ := ih hearlier
      exact ⟨past, unit', later ++ [unit], by simp, hpast, hends⟩
    · have hle := c.epochs_append_singleton_le units unit
      have heq : c.epochs units = n := by omega
      exact ⟨units, unit, [], rfl, heq, by rw [EndsEpoch, heq]; exact hlt⟩

end Camera

/-! ## The full time -/

/-- Behind the epochs that it can count, the counter starts again with its lowest value. -/
theorem Elapsed.epoch_of_overrun {e : Elapsed} {wrapUnit : Int}
    (h : e.epochs wrapUnit = 2 ^ 31) : e.epoch wrapUnit = -2 ^ 31 := by
  rw [epoch, h]
  decide

namespace Clock

theorem le_deadline_postpone {c : Clock} {deadline : Int} (h : c.deadline = some deadline)
    (interval : Int) : ∃ deadline', (c.postpone interval).deadline = some deadline' ∧
      deadline ≤ deadline' := by
  obtain ⟨count, -, heq⟩ := c.postpone_eq_later interval
  refine ⟨deadline + count * max interval 1, by rw [heq, later, h]; rfl, ?_⟩
  exact Int.le_add_of_nonneg_right (Int.mul_nonneg (Int.natCast_nonneg _) (by omega))

namespace Tells

variable {c : Clock} {e : Elapsed}

theorem le_full (h : c.Tells e) (hepochs : e.epochs c.wrapUnit = 2 ^ 31 - 1) :
    (2 ^ 31 - 1) * epochLength ≤ c.full := by
  have hnonneg := h.current_nonneg
  rw [h.full_eq (by omega), ← h.time_eq, hepochs]
  exact Int.le_add_of_nonneg_right hnonneg

/-- Behind the epochs that the counter can count, the full time is negative. -/
theorem full_neg (h : c.Tells e) (hepochs : e.epochs c.wrapUnit = 2 ^ 31) : c.full < 0 := by
  have hepoch : c.epoch = -2 ^ 31 := h.epoch_eq.trans (Elapsed.epoch_of_overrun hepochs)
  have hle := h.current_le
  rw [full, hepoch, fullTime_eq (by decide) (by decide) h.current_nonneg hle]
  simp only [maxTime, epochLength] at *
  omega

end Tells

end Clock

namespace Ledger

section Windows

variable {g : Geometry} {b : Ledger (Camera.dvXplorer g).device} {interval : Int}

/-- The unit that ends the last epoch that the counter can count leaves the deadline far ahead. -/
theorem EventsTimed.not_windowed (h : b.EventsTimed) (hinterval : interval ≤ 2 ^ 31)
    (hwindowed : b.decoder.Windowed interval) {unit : List UInt8}
    (hepochs : (Camera.dvXplorer g).epochs b.units = 2 ^ 31 - 1)
    (hends : (Camera.dvXplorer g).EndsEpoch b.units unit) :
    ¬ (b.advance (.unit unit)).decoder.Windowed interval := by
  obtain ⟨deadline, hdeadline, ⟨-, hle⟩, -⟩ := hwindowed
  have hbefore := h.tells.le_full (by rw [h.wrapUnit_eq]; exact hepochs)
  have hforces := h.clockShowsTime.endsEpoch_iff.1 hends
  -- the deadline does not move with the time, and sealing does not move it back
  have hmoved : (b.decoder.applyUnit unit).decoder.clock.deadline = some deadline := by
    rw [b.clock_applyUnit]
    refine Mark.deadline_move hdeadline (fun hreset => ?_) _
    rw [hreset] at hforces
    cases hforces
  obtain ⟨deadline', hdeadline', hlater⟩ : ∃ deadline',
      (b.advance (.unit unit)).decoder.clock.deadline = some deadline' ∧ deadline ≤ deadline' := by
    rw [b.decoder_advance]
    rcases (b.decoder.make_made (.unit unit)).clock_eq with heq | heq
    · exact ⟨deadline, heq ▸ hmoved, Int.le_refl _⟩
    · rw [heq]
      exact Clock.le_deadline_postpone hmoved _
  have hafter : (b.advance (.unit unit)).decoder.clock.full < 0 := by
    have hclockShows := h.clockShowsTime.advance (.unit unit)
    refine hclockShows.tells.full_neg ?_
    rw [hclockShows.wrapUnit_eq]
    change (Camera.dvXplorer g).epochs (b.units ++ [unit]) = _
    rw [h.clockShowsTime.epochs_unit, hforces, hepochs]
    rfl
  rintro ⟨_, heq, ⟨hlt, -⟩, -⟩
  obtain rfl := Option.some.inj (hdeadline'.symm.trans heq)
  simp only [epochLength] at hbefore
  omega

/-- Windows are kept only as long as the epochs fit their counter. -/
theorem InWindows.inRange {settings : Settings} {d : Decoder (Camera.dvXplorer g).device}
    {calls : List Call} {log : List Occurrence} {moves : List Move}
    (h : b.InWindows d interval moves) (hinterval : interval ≤ 2 ^ 31)
    (hstart : Decoder.start (Camera.dvXplorer g).device settings = .ok d)
    (hflawless : b.Flawless d calls log moves) : (Camera.dvXplorer g).InRange b.units := by
  rintro past ⟨rest, hrest⟩
  by_contra hover
  have hlt : 2 ^ 31 - 1 < (Camera.dvXplorer g).epochs past := by omega
  obtain ⟨past, unit, later, rfl, hepochs, hends⟩ := Camera.exists_endsEpoch (by decide) hlt
  have hunits : (Ledger.run { decoder := d } moves).units = past ++ unit :: (later ++ rest) := by
    rw [← List.cons_append, ← List.append_assoc, hrest, hflawless.end_eq]
    rfl
  obtain ⟨before, after, rfl, rfl⟩ := exists_moves_of_units hunits
  have htimed := (succeeds_append.1 hflawless.succeeds).1.eventsTimed (eventsTimed_start hstart)
  refine htimed.not_windowed hinterval (h.windowed before (List.prefix_append ..) ?_) hepochs hends
    ?_
  · intro hnil
    rw [hnil, Camera.epochs_nil] at hepochs
    cases hepochs
  · have hstep := h.windowed (before ++ [.unit unit]) ⟨after, by simp⟩
    rw [run_append] at hstep
    exact hstep (List.append_ne_nil_of_right_ne_nil _ (List.cons_ne_nil _ _))

end Windows

section Order

variable {c : Camera} {b : Ledger c.device} {unit : List UInt8}

theorem EventsTimed.marker_mem_addedBy (h : b.EventsTimed)
    (hok : (b.decoder.make (.unit unit)).result.isOk) (hends : c.EndsEpoch b.units unit) :
    ⟨SpecialEvent.wrap, c.epoch b.units, b.units ++ [unit]⟩ ∈ b.addedBy unit .special := by
  have hisOk : (b.decoder.applyUnit unit).result.isOk := by
    obtain ⟨forced, hforced⟩ := (b.decoder.make_made (.unit unit)).exists_forced hok
    rw [show (b.decoder.applyUnit unit).result = _ from hforced]
    rfl
  rw [addedBy_of_epochEnd (h.clockShowsTime.endsEpoch_iff.1 hends) hisOk, h.epoch_eq,
    h.clockShowsTime.epoch_now]
  exact List.mem_singleton.2 rfl

/-- The marker of the end of an epoch stays among what was added. -/
theorem EventsTimed.marker_mem_run (h : b.EventsTimed) (hok : (b.decoder.make (.unit unit)).result.isOk)
    (hends : c.EndsEpoch b.units unit) (moves : List Move) :
    ⟨SpecialEvent.wrap, c.epoch b.units, b.units ++ [unit]⟩ ∈
      (b.run (.unit unit :: moves)).added .special := by
  obtain ⟨later, hlater, -⟩ := (b.advance (.unit unit)).exists_added_run moves .special
  refine (congrArg (_ ∈ ·) hlater).mpr ?_
  exact List.mem_append_left _ (List.mem_append_right _ (h.marker_mem_addedBy hok hends))

/-- The unit that ends an epoch leaves nothing that waits. -/
theorem EventsTimed.sealedEvents_of_endsEpoch (h : b.EventsTimed) (hconserved : b.Conserved)
    (hok : (b.decoder.make (.unit unit)).result.isOk) (hends : c.EndsEpoch b.units unit)
    (k : EventKind) : sealedEvents (b.advance (.unit unit)).sealed k =
      (b.added k ++ b.addedBy unit k).map Added.stamped := by
  obtain ⟨forced, hforced⟩ := (b.decoder.make_made (.unit unit)).exists_forced hok
  obtain ⟨body, hleads⟩ := c.leads b.decoder.device unit
  obtain rfl : forced = some .epochEnd :=
    (Decoder.forced_forEach_leads hleads hforced).trans (h.clockShowsTime.endsEpoch_iff.1 hends)
  have hempty := (b.decoder.make_made (.unit unit)).isEmpty_of_forced hok hforced k
  have hevents := (hconserved.advance (.unit unit)).events k
  rw [b.decoder_advance, Buffer.isEmpty_iff.1 hempty, List.append_nil] at hevents
  exact hevents

/-- The markers are told in the order of the epochs that the counter shows. -/
theorem fullTime_wrap_le {epoch epoch' : Int} (hle : -2 ^ 31 ≤ epoch) (hlt : epoch < 2 ^ 31)
    (hle' : -2 ^ 31 ≤ epoch') (hlt' : epoch' < 2 ^ 31)
    (h : EventKind.special.fullTime (SpecialEvent.wrap, epoch) ≤
      EventKind.special.fullTime (SpecialEvent.wrap, epoch')) : epoch ≤ epoch' := by
  have hfull {epoch : Int} (hle : -2 ^ 31 ≤ epoch) (hlt : epoch < 2 ^ 31) :
      EventKind.special.fullTime (SpecialEvent.wrap, epoch) = epoch * epochLength + maxTime :=
    fullTime_eq (Int.le_trans (by decide) hle) (Int.lt_trans hlt (by decide))
      (show 0 ≤ maxTime by decide) (Int.le_refl _)
  rw [hfull hle hlt, hfull hle' hlt'] at h
  simp only [epochLength] at h
  omega

/-- The marker of the epoch that the counter cannot count is told before that of the epoch before
it. -/
theorem EventsTimed.not_sorted (h : b.EventsTimed) (hconserved : b.Conserved)
    (hok : (b.decoder.make (.unit unit)).result.isOk) (hends : c.EndsEpoch b.units unit)
    (hepochs : c.epochs b.units = 2 ^ 31) {a : Added .special} (ha : a ∈ b.added .special)
    (hwrap : a.record = SpecialEvent.wrap) (hepoch : a.epoch = 2 ^ 31 - 1) :
    ¬ ((sealedEvents (b.advance (.unit unit)).sealed .special).map
      EventKind.special.fullTime).Pairwise (· ≤ ·) := by
  rw [h.sealedEvents_of_endsEpoch hconserved hok hends, List.map_append, List.map_append]
  intro hsorted
  have hle : EventKind.special.fullTime a.stamped ≤
      EventKind.special.fullTime (SpecialEvent.wrap, c.epoch b.units) :=
    (List.pairwise_append.1 hsorted).2.2 _ (List.mem_map_of_mem (List.mem_map_of_mem ha)) _
      (List.mem_map_of_mem (List.mem_map_of_mem (h.marker_mem_addedBy hok hends)))
  have hstamped : a.stamped = (SpecialEvent.wrap, a.epoch) := Prod.ext hwrap rfl
  have hnow : c.epoch b.units = -2 ^ 31 := Elapsed.epoch_of_overrun hepochs
  rw [hstamped] at hle
  have := fullTime_wrap_le (by omega) (by omega) (by omega) (by omega) hle
  omega

/-- What is sealed is sorted only up to the epoch behind those that the counter can count. -/
theorem Flawless.epochs_le {settings : Settings} {d : Decoder c.device} {calls : List Call}
    {log : List Occurrence} {moves : List Move} (h : b.Flawless d calls log moves)
    (hstart : Decoder.start c.device settings = .ok d)
    (hsorted : ((sealedEvents b.sealed .special).map EventKind.special.fullTime).Pairwise (· ≤ ·))
    {past : List (List UInt8)} (hpast : past <+: b.units) : c.epochs past ≤ 2 ^ 31 := by
  obtain ⟨rest, hrest⟩ := hpast
  by_contra hover
  obtain ⟨past, unit, later, rfl, hepochs, hends⟩ :=
    Camera.exists_endsEpoch (by decide) (Int.lt_of_not_ge hover)
  obtain ⟨past, unit', later', rfl, hepochs', hends'⟩ :=
    Camera.exists_endsEpoch (by decide) (show 2 ^ 31 - 1 < c.epochs past by omega)
  have hunits : (Ledger.run { decoder := d } moves).units =
      past ++ unit' :: later' ++ unit :: (later ++ rest) := by
    rw [← List.cons_append, ← List.append_assoc, hrest, h.end_eq]
    rfl
  obtain ⟨before, after, rfl, hbefore⟩ := exists_moves_of_units hunits
  obtain ⟨first, between, rfl, rfl⟩ := exists_moves_of_units hbefore
  obtain ⟨hsucceeds, hok, -⟩ := succeeds_append.1 h.succeeds
  obtain ⟨hsucceeds', hok', -⟩ := succeeds_append.1 hsucceeds
  have htimed := hsucceeds.eventsTimed (eventsTimed_start hstart)
  have htimed' := hsucceeds'.eventsTimed (eventsTimed_start hstart)
  have hmarker := htimed'.marker_mem_run hok' hends' between
  rw [← run_append] at hmarker
  refine htimed.not_sorted ((conserved_start hstart).run _) hok (hbefore ▸ hends) (hbefore ▸ hepochs)
    hmarker rfl ((c.epoch_eq_of_lt (by omega)).trans hepochs') ?_
  obtain ⟨later, hlater⟩ : ((Ledger.run { decoder := d } (first ++ .unit unit' :: between)).advance
      (.unit unit)).sealed <+: b.sealed := by
    rw [h.end_eq, run_append _ _ (.unit unit :: after)]
    exact sealed_prefix_run _ after
  rw [← hlater, sealedEvents_append, List.map_append] at hsorted
  exact (List.pairwise_append.1 hsorted).1

end Order

end Ledger

/-! ## Streams that leave them -/

/-- The bytes that a call reads. -/
def Call.bytes : Call → List UInt8
  | .decode bytes => bytes
  | .flush => []

/-- The units of the stream that calls read, whatever pieces of it they read. -/
def Camera.streamUnits (c : Camera) (calls : List Call) : List (List UInt8) :=
  Decoder.units c.device.unitWidth (calls.flatMap Call.bytes)

/-- The stream of some calls tells the time from its first unit on and goes forward. None of the calls
fails while the acquisition is wanted, and still they leave the windows. -/
def LeavesWindows (g : Geometry) (settings : Settings) (calls : List Call) : Prop :=
  1 ≤ settings.maxInterval ∧
  (∀ unit ∈ ((Camera.dvXplorer g).streamUnits calls).head?,
    (Camera.dvXplorer g).mark unit ≠ .silent) ∧
  (Camera.dvXplorer g).Forward ((Camera.dvXplorer g).streamUnits calls) ∧
  ∃ (d d' : Decoder (Camera.dvXplorer g).device) (log : List Occurrence)
    (results : List (Except DecodeError Unit)) (x x' : Exchange)
    (b : Ledger (Camera.dvXplorer g).device) (moves : List Move),
    Decoder.start (Camera.dvXplorer g).device settings = .ok d ∧
    Execution (session Decoder.call calls d) x log (d', results) x' ∧
    (∀ r ∈ results, r.isOk) ∧ Steady (stepsOf log) ∧
    Execution (session Ledger.call calls { decoder := d }) x log (b, results) x' ∧
    b.decoder = d' ∧ b.Flawless d calls log moves ∧ ¬ b.InWindows d settings.maxInterval moves

/-- The stream of some calls goes forward. None of the calls fails, and still the queue takes events
out of order, with no reset between them. -/
def LeavesOrder (c : Camera) (settings : Settings) (calls : List Call) : Prop :=
  c.Forward (c.streamUnits calls) ∧
  ∃ (d d' : Decoder c.device) (log : List Occurrence) (results : List (Except DecodeError Unit))
    (x x' : Exchange) (containers : List Container) (k : EventKind),
    Decoder.start c.device settings = .ok d ∧
    Execution (session Decoder.call calls d) x log (d', results) x' ∧ (∀ r ∈ results, r.isOk) ∧
    containers <:+: pushed log ∧ (∀ container ∈ containers, container.isReset = false) ∧
    ¬ (containers.flatMap (·.times k)).Pairwise (· ≤ ·)

/-- Under spacious settings calls go through without failure, if someone takes the containers. -/
theorem exists_lossless_session {c : Camera} {settings : Settings} (hs : settings.Spacious)
    {d : Decoder c.device} (hstart : Decoder.start c.device settings = .ok d) (calls : List Call)
    {x : Exchange} (hx : x.Bounded) : ∃ d' log results x',
      Execution (session Decoder.call calls d) x log (d', results) x' ∧ (∀ r ∈ results, r.isOk) ∧
      ∀ s ∈ stepsOf log, s.succeeds := by
  obtain ⟨log, ⟨d', results⟩, x', h, hsteps⟩ :=
    (session Decoder.call calls d).exists_lossless hx
  exact ⟨d', log, results, x', h, isOk_of_spacious hs hstart h, hsteps⟩

theorem pushed_of_succeeds {log : List Occurrence} (h : ∀ s ∈ stepsOf log, s.succeeds) :
    pushed log = (handovers (stepsOf log)).map (·.sealed.container) := by
  rw [pushed, List.filter_eq_self.2]
  intro o ho
  obtain ⟨s, hs, hhand⟩ := List.mem_filterMap.1 ho
  exact (h s hs).2 o hhand

section Turns

variable {c : Camera} {unit : List UInt8} {count : Nat}

theorem Camera.elapsed_replicate (h : c.mark unit = .turns count) (n : Nat) :
    c.elapsed (List.replicate n unit) = { turns := count * n } := by
  induction n with
  | zero => rfl
  | succ n ih =>
    rw [List.replicate_succ', c.elapsed_append_singleton, ih, h]
    rfl

theorem Camera.forward_replicate (h : c.mark unit = .turns count) (n : Nat) :
    c.Forward (List.replicate n unit) := by
  intro past unit' hprefix _
  obtain ⟨-, hpast⟩ := List.prefix_replicate_iff.1 ((List.prefix_append ..).trans hprefix)
  obtain ⟨-, hboth⟩ := List.prefix_replicate_iff.1 hprefix
  rw [hboth, hpast, Camera.time, Camera.time, elapsed_replicate h, elapsed_replicate h]
  refine Int.add_le_add_right (Int.mul_le_mul_of_nonneg_left ?_ (Int.le_of_lt c.wrapUnit_spec.1)) _
  exact Int.ofNat_le.2 (Nat.mul_le_mul_left _ (by simp))

theorem Camera.epochs_replicate (h : c.mark unit = .turns count) (n : Nat) :
    c.epochs (List.replicate n unit) = c.device.wrapUnit * (count * n : Nat) / epochLength := by
  rw [Camera.epochs, elapsed_replicate h]
  rfl

theorem Camera.units_stream {units : List (List UInt8)}
    (h : ∀ unit ∈ units, unit.length = max c.device.unitWidth 1) :
    c.streamUnits [.decode units.flatten] = units ∧
      [Call.decode units.flatten].flatMap (Call.units c.device.unitWidth) = units := by
  simp only [streamUnits, List.flatMap_cons, List.flatMap_nil, List.append_nil, Call.bytes,
    Call.units, Decoder.units_flatten h, and_self]

/-- A DVXplorer whose counter turns until the counter of epochs has run over leaves the windows. -/
theorem leavesWindows_replicate {g : Geometry} {settings : Settings} (hs : settings.Spacious)
    (hpos : 1 ≤ settings.maxInterval) (hinterval : settings.maxInterval ≤ 2 ^ 31)
    {d : Decoder (Camera.dvXplorer g).device}
    (hstart : Decoder.start (Camera.dvXplorer g).device settings = .ok d)
    (hm : (Camera.dvXplorer g).mark unit = .turns count) (hlength : unit.length = 2) {n : Nat}
    (hover : 2 ^ 31 ≤ (2 ^ 15 * (count * n : Nat) : Int) / epochLength) :
    LeavesWindows g settings [.decode (List.replicate n unit).flatten] := by
  obtain ⟨hstream, hunits⟩ := Camera.units_stream (c := .dvXplorer g)
    (List.forall_mem_replicate.2 (.inr hlength))
  obtain ⟨d', log, results, x', h, hok, hsteps⟩ := exists_lossless_session hs hstart
    [.decode (List.replicate n unit).flatten] (Exchange.bounded_start 3)
  have hsteady : Steady (stepsOf log) := fun s hs => (hsteps s hs).1
  obtain ⟨b, moves, hb, hd, hflawless⟩ := Ledger.exists_flawless hstart h hok
  rw [LeavesWindows, hstream]
  refine ⟨hpos, fun u hu => ?_, Camera.forward_replicate hm n, d, d', log, results, _, x', b, moves,
    hstart, h, hok, hsteady, hb, hd, hflawless, fun hwindows => ?_⟩
  · rw [List.eq_of_mem_replicate (List.mem_of_mem_head? hu), hm]
    exact nofun
  · have hrange := hwindows.inRange hinterval hstart hflawless
    rw [hflawless.units_eq hsteady, hunits] at hrange
    have hlt := hrange.now
    rw [Camera.epochs_replicate hm] at hlt
    exact absurd hlt (Int.not_lt.2 hover)

/-- If it goes on for another epoch, its markers are out of order. -/
theorem leavesOrder_replicate {c : Camera} {settings : Settings} (hs : settings.Spacious)
    {d : Decoder c.device} (hstart : Decoder.start c.device settings = .ok d)
    (hm : c.mark unit = .turns count) (hlength : unit.length = max c.device.unitWidth 1) {n : Nat}
    (hover : 2 ^ 31 < c.device.wrapUnit * (count * n : Nat) / epochLength) :
    LeavesOrder c settings [.decode (List.replicate n unit).flatten] := by
  obtain ⟨hstream, hunits⟩ := Camera.units_stream (List.forall_mem_replicate.2 (.inr hlength))
  obtain ⟨d', log, results, x', h, hok, hsteps⟩ := exists_lossless_session hs hstart
    [.decode (List.replicate n unit).flatten] (Exchange.bounded_start 3)
  have hsteady : Steady (stepsOf log) := fun s hs => (hsteps s hs).1
  obtain ⟨b, moves, hb, hd, hflawless⟩ := Ledger.exists_flawless hstart h hok
  have hdecoded : b.units = List.replicate n unit := (hflawless.units_eq hsteady).trans hunits
  have hresets : c.resets b.units = 0 := by
    rw [hdecoded]
    refine List.countP_eq_zero.2 fun u hu => ?_
    rw [List.eq_of_mem_replicate hu, hm]
    exact nofun
  have hbyResets := hflawless.succeeds.splitByResets hstart hflawless.end_eq
  have hisolated := hbyResets.isolated hflawless.conserved hflawless.sealed_eq hsteady
  have hnone := not_isReset_of_resetCount (hbyResets.resetCount_eq.trans hresets)
  rw [hflawless.sealed_eq, List.forall_mem_map] at hnone
  rw [LeavesOrder, hstream]
  refine ⟨Camera.forward_replicate hm n, d, d', log, results, _, x', pushed log, .special, hstart, h,
    hok, List.infix_rfl, fun container hc => ?_, fun hsorted => ?_⟩
  · simpa using List.countP_eq_zero.1 (hisolated.pushed_count.trans hresets) container hc
  · rw [pushed_of_succeeds hsteps, List.flatMap_map, flatMap_times hnone, ← hflawless.sealed_eq]
      at hsorted
    have hle := hflawless.epochs_le hstart hsorted (List.prefix_refl _)
    rw [hdecoded, Camera.epochs_replicate hm] at hle
    exact absurd hover (Int.not_lt.2 hle)

end Turns

/-! ## Pieces of a stream -/

open Wire.DvXplorer.Encode in
/-- A tick and a pulse, twice, in two pieces of a stream that each end within a unit. What is left over
of a piece is not decoded, so that only the pieces hold the second tick, and not the stream. -/
def cutCalls : List Call :=
  [.decode (tick 100 ++ special 4 ++ [4]), .decode (tick 0 ++ special 4 ++ [0]), .flush]

theorem cutCalls_forward :
    (∀ unit ∈ ((Camera.dvXplorer Wire.DvXplorer.fullArray).streamUnits cutCalls).head?,
      (Camera.dvXplorer Wire.DvXplorer.fullArray).mark unit ≠ .silent) ∧
    (Camera.dvXplorer Wire.DvXplorer.fullArray).Forward
      ((Camera.dvXplorer Wire.DvXplorer.fullArray).streamUnits cutCalls) := by decide +kernel

theorem leavesWindows_cutCalls :
    LeavesWindows Wire.DvXplorer.fullArray { maxInterval := 10 } cutCalls := by
  have hrun : comesTo (Camera.dvXplorer Wire.DvXplorer.fullArray).device { maxInterval := 10 }
      cutCalls (.start 3) fun steps results =>
        (results.all Except.isOk && steps.all Step.goesOn) &&
          (handovers steps).any fun h => !h.sealed.isReset && !decide (h.sealed.container.Narrow 10) := by
    decide +kernel
  obtain ⟨d, d', results, steps, x', hd, h, htest⟩ := exists_of_comesTo hrun
  obtain ⟨htest, hwide⟩ := Bool.and_eq_true_iff.1 htest
  obtain ⟨hok, hgoes⟩ := Bool.and_eq_true_iff.1 htest
  obtain ⟨o, ho, hwide⟩ := List.any_eq_true.1 hwide
  have hsteady : Steady (stepsOf (steps.map .acted)) := by
    rw [stepsOf_acted]
    exact List.all_eq_true.1 hgoes
  obtain ⟨b, moves, hb, hd', hflawless⟩ := Ledger.exists_flawless hd h (List.all_eq_true.1 hok)
  refine ⟨by decide, cutCalls_forward.1, cutCalls_forward.2, d, d', _, results, _, x', b, moves, hd, h,
    List.all_eq_true.1 hok, hsteady, hb, hd', hflawless, fun hwindows => ?_⟩
  have hmem : o.sealed ∈ b.sealed := by
    rw [hflawless.sealed_eq, stepsOf_acted]
    exact List.mem_map_of_mem ho
  cases hs : o.sealed with
  | data container =>
    rw [hs] at hmem hwide
    simp only [Bool.and_eq_true, Bool.not_eq_true', decide_eq_false_iff_not] at hwide
    exact hwide.2 (hwindows.narrow container hmem)
  | reset container =>
    rw [hs] at hwide
    cases hwide

theorem leavesOrder_cutCalls :
    LeavesOrder (.dvXplorer Wire.DvXplorer.fullArray) {} cutCalls := by
  have hrun : comesTo (Camera.dvXplorer Wire.DvXplorer.fullArray).device {} cutCalls (.start 3)
      fun steps results => results.all Except.isOk && decide ((∀ container ∈
        pushed (steps.map .acted), container.isReset = false) ∧
          ¬ ((pushed (steps.map .acted)).flatMap (·.times .special)).Pairwise (· ≤ ·)) := by
    decide +kernel
  obtain ⟨d, d', results, steps, x', hd, h, htest⟩ := exists_of_comesTo hrun
  obtain ⟨hok, horder⟩ := Bool.and_eq_true_iff.1 htest
  obtain ⟨hnone, hsorted⟩ := of_decide_eq_true horder
  exact ⟨cutCalls_forward.2, d, d', _, results, _, x', _, .special, hd, h, List.all_eq_true.1 hok,
    List.infix_rfl, hnone, hsorted⟩

/-! ## A reset that is abandoned -/

/-- What comes next in a session: a call, or something that others do. -/
inductive Cue where
  | call (c : Call)
  | take
  | switch (running : Bool)

def Cue.call? : Cue → Option Call
  | .call c => some c
  | .take | .switch _ => none

/-- What happens in a session in which others act only between the calls, and where it leads, unless
something has to wait. -/
def play {dev : Device} : List Cue → Decoder dev → Exchange →
    Option (List Occurrence × (Decoder dev × List (Except DecodeError Unit)) × Exchange)
  | [], d, x => some ([], (d, []), x)
  | .call c :: rest, d, x =>
    match (d.call c).alone x with
    | (_, none) => none
    | (steps, some ((d, result), x)) => (play rest d x).map fun (log, (d, results), x) =>
      (steps.map .acted ++ log, (d, result :: results), x)
  | .take :: rest, d, x =>
    match x.take? with
    | none => none
    | some (c, x) => (play rest d x).map fun (log, reached) => (.taken c :: log, reached)
  | .switch running :: rest, d, x =>
    (play rest d (x.setRunning running)).map fun (log, reached) => (.switched running :: log, reached)

theorem execution_of_play {dev : Device} {cues : List Cue} {d : Decoder dev} {x x' : Exchange}
    {log : List Occurrence} {reached : Decoder dev × List (Except DecodeError Unit)}
    (h : play cues d x = some (log, reached, x')) :
    Execution (session Decoder.call (cues.filterMap Cue.call?) d) x log reached x' := by
  induction cues generalizing d x log reached with
  | nil =>
    cases h
    exact .done ..
  | cons cue cues ih =>
    cases cue with
    | call c =>
      simp only [play] at h
      split at h
      · cases h
      · rename_i steps d₁ result x₁ halone
        obtain ⟨⟨later, ⟨d₂, results⟩, x₂⟩, hlater, heq⟩ := Option.map_eq_some_iff.1 h
        cases heq
        have hrest := (ih hlater).bind (f := fun (s, results) => pure (s, result :: results))
          (.done (d₂, result :: results) _)
        rw [List.append_nil] at hrest
        exact (Producer.execution_of_alone halone).bind hrest
    | take =>
      simp only [play] at h
      split at h
      · cases h
      · rename_i c x₁ htake
        obtain ⟨⟨later, reached, x₂⟩, hlater, heq⟩ := Option.map_eq_some_iff.1 h
        cases heq
        exact .meanwhile (.take htake) (ih hlater)
    | switch running =>
      obtain ⟨⟨later, reached, x₂⟩, hlater, heq⟩ := Option.map_eq_some_iff.1 h
      cases heq
      exact .meanwhile (.switch x running) (ih hlater)

/-- Whether a new decoder comes through a session with what happens and results as they are asked
for. -/
def playsTo (dev : Device) (settings : Settings) (cues : List Cue) (x : Exchange)
    (test : List Occurrence → List (Except DecodeError Unit) → Bool) : Bool :=
  match Decoder.start dev settings with
  | .error _ => false
  | .ok d =>
    match play cues d x with
    | none => false
    | some (log, (_, results), _) => test log results

theorem exists_of_playsTo {dev : Device} {settings : Settings} {cues : List Cue} {x : Exchange}
    {test : List Occurrence → List (Except DecodeError Unit) → Bool}
    (h : playsTo dev settings cues x test) :
    ∃ d d' results log x', Decoder.start dev settings = .ok d ∧
      Execution (session Decoder.call (cues.filterMap Cue.call?) d) x log (d', results) x' ∧
      test log results := by
  unfold playsTo at h
  split at h
  · cases h
  · rename_i d hd
    split at h
    · cases h
    · rename_i log d' results x' hplay
      exact ⟨d, d', results, log, x', hd, execution_of_play hplay, h⟩

open Wire.DvXplorer.Encode in
/-- The flag is cleared while the queue is full and a reset is to be handed over; afterwards it is set
again, and the session goes on up to another reset. -/
def abandoningCues : List Cue :=
  [.call (.decode reset), .call (.decode (tick 100 ++ special 4 ++ reset)), .switch true, .take,
    .take, .call (.decode (tick 5 ++ special 4 ++ reset))]

theorem leavesOrder_abandoned : LeavesOrder (.dvXplorer Wire.DvXplorer.fullArray) {}
    (abandoningCues.filterMap Cue.call?) := by
  have hrun : playsTo (Camera.dvXplorer Wire.DvXplorer.fullArray).device {} abandoningCues
      { Exchange.start 2 with stopAt := some 2 } fun log results =>
        results.all Except.isOk && decide (
          (∀ container ∈ ((pushed log).drop 1).take 2, container.isReset = false) ∧
          ¬ ((((pushed log).drop 1).take 2).flatMap (·.times .special)).Pairwise (· ≤ ·)) := by
    decide +kernel
  have hforward : (Camera.dvXplorer Wire.DvXplorer.fullArray).Forward
      ((Camera.dvXplorer Wire.DvXplorer.fullArray).streamUnits
        (abandoningCues.filterMap Cue.call?)) := by decide +kernel
  obtain ⟨d, d', results, log, x', hd, h, htest⟩ := exists_of_playsTo hrun
  obtain ⟨hok, horder⟩ := Bool.and_eq_true_iff.1 htest
  obtain ⟨hnone, hsorted⟩ := of_decide_eq_true horder
  exact ⟨hforward, d, d', log, results, _, x', _, .special, hd, h, List.all_eq_true.1 hok,
    (List.take_prefix ..).isInfix.trans (List.drop_suffix ..).isInfix, hnone, hsorted⟩

/-! ## Limits -/

/-- A DVXplorer leaves the windows if its stream is cut within a unit, and if its counter turns until
the counter of epochs has run over. -/
theorem leavesWindows_dvXplorer :
    LeavesWindows Wire.DvXplorer.fullArray { maxInterval := 10 } cutCalls ∧
      LeavesWindows Wire.DvXplorer.fullArray {}
        [.decode (List.replicate (2 ^ 36) (Wire.DvXplorer.Encode.wrap 2048)).flatten] := by
  have hok : (Decoder.start (Camera.dvXplorer Wire.DvXplorer.fullArray).device {}).isOk := by
    decide +kernel
  have hmark : (Camera.dvXplorer Wire.DvXplorer.fullArray).mark
      (Wire.DvXplorer.Encode.wrap 2048) = .turns 2048 := by decide +kernel
  obtain ⟨d, hd⟩ := exists_of_isOk hok
  exact ⟨leavesWindows_cutCalls, leavesWindows_replicate Settings.spacious_default (by decide)
    (by decide) hd hmark (by decide) (by decide)⟩

/-- A DVXplorer leaves the order if its stream is cut within a unit, if a reset is abandoned, and if
its counter turns until the counter of epochs has run over. -/
theorem leavesOrder_dvXplorer :
    LeavesOrder (.dvXplorer Wire.DvXplorer.fullArray) {} cutCalls ∧
      LeavesOrder (.dvXplorer Wire.DvXplorer.fullArray) {} (abandoningCues.filterMap Cue.call?) ∧
      LeavesOrder (.dvXplorer Wire.DvXplorer.fullArray) {}
        [.decode (List.replicate (2 ^ 36 + 2 ^ 5) (Wire.DvXplorer.Encode.wrap 2048)).flatten] := by
  have hok : (Decoder.start (Camera.dvXplorer Wire.DvXplorer.fullArray).device {}).isOk := by
    decide +kernel
  have hmark : (Camera.dvXplorer Wire.DvXplorer.fullArray).mark
      (Wire.DvXplorer.Encode.wrap 2048) = .turns 2048 := by decide +kernel
  have hover : 2 ^ 31 < (2 ^ 15 * (2048 * (2 ^ 36 + 2 ^ 5) : Nat) : Int) / epochLength := by
    decide
  obtain ⟨d, hd⟩ := exists_of_isOk hok
  exact ⟨leavesOrder_cutCalls, leavesOrder_abandoned,
    leavesOrder_replicate Settings.spacious_default hd hmark (by decide) hover⟩

end EventCamera
