import EventCamera.Proofs.Sampling
import EventCamera.Proofs.Reach
import Mathlib.Data.List.Induction

/-! # Ends of epochs that are refused

The end of an epoch needs room for its marker. Where there is none, the unit fails after it has moved
the clock on: the events that wait stay in the epoch before, and so do later ones, until all of them
are sealed. No other failure takes the buffers out of the epoch of the clock. -/

namespace EventCamera

theorem Buffer.isOk_capacityFor_of_isEmpty {k : EventKind} {b : Buffer k} (h : b.isEmpty)
    (memory : Nat) : (b.capacityFor 1 memory).isOk := by
  have hsize : b.size = 0 := Array.size_eq_zero_iff.2 (Array.isEmpty_iff.1 h)
  have hfits : b.Fits 1 := by
    unfold Fits
    omega
  rw [hfits.capacityFor]
  rfl

namespace Decoder

/-- Every buffer that holds events is in the epoch of the clock. -/
def InEpoch {dev : Device} (d : Decoder dev) : Prop :=
  ∀ k, (d.buffer k).isEmpty = false → (d.buffer k).epoch = d.clock.epoch

instance {dev : Device} {d : Decoder dev} : Decidable d.InEpoch :=
  inferInstanceAs (Decidable (∀ _, _))

variable {dev : Device} {d : Decoder dev}

theorem isOk_push (d : Decoder dev) (k : EventKind) (event : k.Record) (notices : List Notice)
    (forced : Option Forced) :
    (d.push k event notices forced).result.isOk = (d.collector.capacityFor k 1).isOk := by
  unfold push
  cases d.collector.capacityFor k 1 <;> rfl

/-- The wrap that ends an epoch fails only for want of room for the marker. -/
theorem isOk_apply_wrap (d : Decoder dev) {multiplier : UInt32}
    (h : d.clock.endsEpoch multiplier) :
    (apply (.wrap multiplier) d).result.isOk = (d.collector.capacityFor .special 1).isOk := by
  simp only [apply]
  rw [if_pos h, isOk_push]
  rfl

end Decoder

namespace Ledger

variable {c : Camera} {b : Ledger c.device} {m : Move}

/-! ## Failures of units -/

/-- A reset never fails. -/
theorem isOk_make_of_reset (hreplace : b.decoder.collector.Replaceable) {unit : List UInt8}
    (h : c.mark unit = .reset) : (b.decoder.make (.unit unit)).result.isOk := by
  rw [hreplace.isOk_make_iff, Decoder.applyUnit, Camera.codes_of_fillsUnit h rfl]
  rfl

/-- The end of an epoch fails only for want of room for its marker. -/
theorem ClockShowsTime.isOk_make_iff (h : b.ClockShowsTime)
    (hreplace : b.decoder.collector.Replaceable) {unit : List UInt8}
    (hends : c.EndsEpoch b.units unit) : (b.decoder.make (.unit unit)).result.isOk ↔
      (b.decoder.collector.capacityFor .special 1).isOk := by
  obtain ⟨count, hm, hover⟩ := Mark.exists_turns (h.endsEpoch_iff.1 hends)
  rw [hreplace.isOk_make_iff, Decoder.applyUnit, Camera.codes_of_fillsUnit hm rfl, Mark.codes,
    (Decoder.forEach_singleton ..).2]
  exact iff_of_eq (congrArg (· = true) (Decoder.isOk_apply_wrap _ hover))

/-! ## Steps -/

/-- A unit ends an epoch, and there is no room for the marker. -/
def Refuses (b : Ledger c.device) (m : Move) : Prop :=
  ∃ unit, m = .unit unit ∧ c.EndsEpoch b.units unit ∧
    (b.decoder.collector.capacityFor .special 1).isOk = false

/-- Every buffer is in the epoch of the device time. -/
def InStep (b : Ledger c.device) : Prop :=
  ∀ k, (b.decoder.buffer k).epoch = c.epochs b.units

/-- Every buffer is in an epoch before that of the device time, and there are special events. -/
structure Behind (b : Ledger c.device) : Prop where
  waiting : (b.decoder.buffer .special).isEmpty = false
  epoch_lt : ∀ k, (b.decoder.buffer k).epoch < c.epochs b.units

/-- A step that takes nothing out: the buffers stay in their epochs, and keep their events. -/
structure Carried (b : Ledger c.device) (m : Move) : Prop where
  sealed_eq : (b.advance m).sealed = b.sealed
  epoch_eq : ∀ k, ((b.advance m).decoder.buffer k).epoch = (b.decoder.buffer k).epoch
  waiting : (b.decoder.buffer .special).isEmpty = false →
    ((b.advance m).decoder.buffer .special).isEmpty = false

/-- How a step leaves the epochs. It takes all events out, or it takes nothing out; and then the device
time stays in its epoch, unless the end of the epoch is refused. -/
inductive Passed (b : Ledger c.device) (m : Move) : Prop where
  | sealed : ¬ b.Refuses m → (b.advance m).InStep →
      ((b.decoder.buffer .special).isEmpty = false → (b.advance m).sealed ≠ b.sealed) → Passed b m
  | kept : ¬ b.Refuses m → b.Carried m → c.epochs (b.advance m).units = c.epochs b.units →
      Passed b m
  | refused : b.Refuses m → b.Carried m → c.epochs b.units < c.epochs (b.advance m).units →
      Passed b m

theorem Refuses.waiting (h : b.Refuses m) : (b.decoder.buffer .special).isEmpty = false := by
  obtain ⟨_, -, -, hroom⟩ := h
  cases hempty : (b.decoder.buffer .special).isEmpty with
  | false => rfl
  | true =>
    have hok := Buffer.isOk_capacityFor_of_isEmpty hempty b.decoder.collector.memory
    exact absurd (hroom.symm.trans hok) Bool.false_ne_true

theorem ClockShowsTime.not_isOk_of_refuses (h : b.ClockShowsTime)
    (hreplace : b.decoder.collector.Replaceable) (hrefuses : b.Refuses m) :
    (b.decoder.make m).result.isOk = false := by
  obtain ⟨unit, rfl, hends, hroom⟩ := hrefuses
  rw [← Bool.not_eq_true, h.isOk_make_iff hreplace hends, hroom]
  exact Bool.false_ne_true

theorem isEmpty_moved (m : Move) {k : EventKind} (h : (b.decoder.buffer k).isEmpty = false) :
    ((b.decoder.moved m).decoder.buffer k).isEmpty = false := by
  cases m with
  | unit unit =>
    rw [← Bool.not_eq_true, Buffer.isEmpty_iff] at h ⊢
    change ((b.decoder.applyUnit unit).decoder.buffer k).stamped ≠ []
    rw [b.stamped_applyUnit]
    exact fun hnil => h (List.append_eq_nil_iff.1 hnil).1
  | rest => exact h

theorem carried_of_decoder (hd : (b.decoder.make m).decoder = (b.decoder.moved m).decoder)
    (hnothing : (b.decoder.make m).handedOn = []) : b.Carried m := by
  have hdecoder := (b.decoder_advance m).trans hd
  refine ⟨?_, fun k => ?_, fun h => ?_⟩
  · rw [sealed_advance, hnothing, List.append_nil]
  · rw [hdecoder]
    cases m with
    | unit unit => exact Decoder.epoch_forEach_apply _ _ k
    | rest => rfl
  · rw [hdecoder]
    exact isEmpty_moved m h

theorem ClockShowsTime.epochs_of_quiet (h : b.ClockShowsTime) {unit : List UInt8}
    (hquiet : (c.mark unit).forces b.decoder.clock = none) :
    c.epochs (b.units ++ [unit]) = c.epochs b.units := by
  rw [h.epochs_unit, hquiet]
  rfl

/-- A failure other than a refusal leaves the device time in its epoch. -/
theorem ClockShowsTime.epochs_of_failed (h : b.ClockShowsTime)
    (hreplace : b.decoder.collector.Replaceable)
    (hfail : (b.decoder.make m).result.isOk = false) (hno : ¬ b.Refuses m) :
    c.epochs (b.advance m).units = c.epochs b.units := by
  cases m with
  | rest => rfl
  | unit unit =>
    refine h.epochs_of_quiet ?_
    cases hforces : (c.mark unit).forces b.decoder.clock with
    | none => rfl
    | some forced =>
      cases forced with
      | reset =>
        rw [isOk_make_of_reset hreplace (Mark.forces_eq_reset_iff.1 hforces)] at hfail
        cases hfail
      | epochEnd =>
        have hends := h.endsEpoch_iff.2 hforces
        refine absurd ⟨unit, rfl, hends, ?_⟩ hno
        rw [← Bool.not_eq_true, ← h.isOk_make_iff hreplace hends, hfail]
        exact Bool.false_ne_true

theorem ClockShowsTime.passed (h : b.ClockShowsTime) (hreplace : b.decoder.collector.Replaceable)
    (m : Move)
    (hrange : c.epochs (b.advance m).units < 2 ^ 31) : b.Passed m := by
  have hno (hok : (b.decoder.make m).result.isOk) : ¬ b.Refuses m := fun hrefuses =>
    Bool.false_ne_true ((h.not_isOk_of_refuses hreplace hrefuses).symm.trans hok)
  have hmade := b.decoder.make_made m
  cases hmade with
  | failed e hd hr hnothing =>
    have hcarried := carried_of_decoder hd hnothing
    by_cases hrefuses : b.Refuses m
    · refine .refused hrefuses hcarried ?_
      obtain ⟨unit, rfl, hends, -⟩ := hrefuses
      exact hends
    · exact .kept hrefuses hcarried (h.epochs_of_failed hreplace (by rw [hr]; rfl) hrefuses)
  | kept ha hd hr =>
    refine .kept (hno (by rw [hr]; rfl)) (carried_of_decoder hd (Settled.handedOn_of_ok hr)) ?_
    cases m with
    | rest => rfl
    | unit unit =>
      obtain ⟨body, hleads⟩ := c.leads b.decoder.device unit
      exact h.epochs_of_quiet (Decoder.forced_forEach_leads hleads ha).symm
  | sealed ha ht hr =>
    have hdecoder := b.decoder_advance m
    refine .sealed (hno (by rw [hr]; rfl)) (fun k => ?_) fun hwaiting hsame => ?_
    · rw [← c.epoch_eq_of_lt hrange, ← (h.advance m).epoch_now, hdecoder]
      exact ht.fresh_epoch_eq k
    · have hparts := (b.decoder.make_made m).sealedEvents_append .special
      rw [sealed_advance, List.append_right_eq_self] at hsame
      have hfresh : ((b.decoder.make m).decoder.buffer .special).stamped = [] :=
        Buffer.isEmpty_iff.1 (ht.fresh_isEmpty .special)
      rw [hsame, hfresh] at hparts
      have hnone := Buffer.isEmpty_iff.2 hparts.symm
      rw [isEmpty_moved m hwaiting] at hnone
      cases hnone
  | cut e ha _ hr =>
    have hok := hreplace.isOk_make_of_forced ha
    rw [hr] at hok
    cases hok

theorem ClockShowsTime.carried_of_refuses (h : b.ClockShowsTime)
    (hreplace : b.decoder.collector.Replaceable)
    (hrefuses : b.Refuses m) : b.Carried m := by
  have hfail := h.not_isOk_of_refuses hreplace hrefuses
  cases b.decoder.make_made m with
  | failed e hd _ hnothing => exact carried_of_decoder hd hnothing
  | kept _ _ hr | sealed _ _ hr =>
    rw [hr] at hfail
    cases hfail
  | cut _ ha =>
    exact absurd (hfail.symm.trans (hreplace.isOk_make_of_forced ha)) Bool.false_ne_true

/-! ## Runs -/

/-- The end of an epoch was refused, and nothing was sealed since. -/
def Refused (b : Ledger c.device) (moves : List Move) : Prop :=
  ∃ before m after, moves = before ++ m :: after ∧ (b.run before).Refuses m ∧
    (b.run moves).sealed = (b.run before).sealed

theorem run_concat (b : Ledger c.device) (moves : List Move) (m : Move) :
    b.run (moves ++ [m]) = (b.run moves).advance m :=
  b.run_append moves [m]

/-- A refusal is in force as long as nothing is sealed. -/
theorem ClockShowsTime.refused_concat (h : b.ClockShowsTime)
    (hreplace : b.decoder.collector.Replaceable) {moves : List Move} :
    b.Refused (moves ++ [m]) ↔ (b.run moves).Refuses m ∨
      b.Refused moves ∧ ((b.run moves).advance m).sealed = (b.run moves).sealed := by
  refine ⟨?_, ?_⟩
  · rintro ⟨before, last, after, heq, hrefuses, hsealed⟩
    rw [run_concat] at hsealed
    rcases List.eq_nil_or_concat after with rfl | ⟨after, last', rfl⟩
    · obtain ⟨rfl, hlast⟩ := List.append_inj' heq rfl
      obtain rfl := List.singleton_inj.1 hlast
      exact .inl hrefuses
    · rw [List.concat_eq_append, ← List.cons_append, ← List.append_assoc] at heq
      obtain ⟨rfl, -⟩ := List.append_inj' heq rfl
      have hfirst := sealed_run_prefix (b := b) (List.prefix_append before (last :: after))
      have hlater := (b.run (before ++ last :: after)).sealed_prefix_run [m]
      have hsame := hlater.eq_of_length_le (hsealed ▸ hfirst.length_le)
      exact .inr ⟨⟨before, last, after, rfl, hrefuses, hsame.trans hsealed⟩, hsame.symm⟩
  · rintro (hrefuses | ⟨⟨before, last, after, rfl, hrefuses, hsealed⟩, hsame⟩)
    · refine ⟨moves, m, [], rfl, hrefuses, ?_⟩
      have hcarried := (h.run moves).carried_of_refuses (replaceable_run hreplace moves) hrefuses
      rw [run_concat]
      exact hcarried.sealed_eq
    · refine ⟨before, last, after ++ [m], by simp, hrefuses, ?_⟩
      rw [run_concat, hsame, hsealed]

theorem Behind.carried (h : b.Behind) (hcarried : b.Carried m)
    (hle : c.epochs b.units ≤ c.epochs (b.advance m).units) : (b.advance m).Behind :=
  ⟨hcarried.waiting h.waiting, fun k =>
    Int.lt_of_lt_of_le (hcarried.epoch_eq k ▸ h.epoch_lt k) hle⟩

/-- Buffers that are in the epoch of the device time stay there as long as this does. -/
theorem InStep.carried (h : b.InStep) (hcarried : b.Carried m)
    (hsame : c.epochs (b.advance m).units = c.epochs b.units) : (b.advance m).InStep := fun k => by
  rw [hcarried.epoch_eq, h k, hsame]

/-- A refusal leaves all buffers behind. -/
theorem InStep.behind (h : b.InStep) (hrefuses : b.Refuses m) (hcarried : b.Carried m)
    (hlt : c.epochs b.units < c.epochs (b.advance m).units) : (b.advance m).Behind :=
  ⟨hcarried.waiting hrefuses.waiting, fun k => by rwa [hcarried.epoch_eq, h k]⟩

/-- Where the end of an epoch was refused and nothing was sealed since, the buffers are behind the device
time. Elsewhere they are in its epoch. -/
theorem ClockShowsTime.run_cases (h : b.ClockShowsTime) (hreplace : b.decoder.collector.Replaceable)
    (hstep : b.InStep)
    (moves : List Move) (hrange : c.InRange (b.run moves).units) :
    (b.Refused moves ∧ (b.run moves).Behind) ∨
      (¬ b.Refused moves ∧ (b.run moves).InStep) := by
  -- On the last step, which may be the one that ends what a refusal before it left.
  induction moves using List.reverseRecOn with
  | nil => exact .inr ⟨fun ⟨before, m, after, heq, _⟩ => by simp at heq, hstep⟩
  | append_singleton moves m ih =>
    rw [run_concat] at hrange ⊢
    replace ih := ih (hrange.of_prefix ((b.run moves).units_prefix_run [m]))
    cases (h.run moves).passed (replaceable_run hreplace moves) m hrange.now with
    | sealed hno hin hgrows =>
      refine .inr ⟨?_, hin⟩
      rw [h.refused_concat hreplace]
      rintro (hrefuses | ⟨hrefused, hsame⟩)
      · exact hno hrefuses
      · rcases ih with ⟨-, hbehind⟩ | ⟨hnone, -⟩
        · exact hgrows hbehind.waiting hsame
        · exact hnone hrefused
    | kept hno hcarried hsame =>
      rw [h.refused_concat hreplace]
      rcases ih with ⟨hrefused, hbehind⟩ | ⟨hnone, hin⟩
      · exact .inl ⟨.inr ⟨hrefused, hcarried.sealed_eq⟩,
          hbehind.carried hcarried (Int.le_of_eq hsame.symm)⟩
      · refine .inr ⟨?_, hin.carried hcarried hsame⟩
        rintro (hrefuses | ⟨hrefused, -⟩)
        · exact hno hrefuses
        · exact hnone hrefused
    | refused hrefuses hcarried hlt =>
      rw [h.refused_concat hreplace]
      refine .inl ⟨.inl hrefuses, ?_⟩
      rcases ih with ⟨-, hbehind⟩ | ⟨-, hin⟩
      · exact hbehind.carried hcarried (Int.le_of_lt hlt)
      · exact hin.behind hrefuses hcarried hlt

/-! ## What follows -/

theorem InStep.inEpoch (h : b.InStep) (hclockShows : b.ClockShowsTime)
    (hrange : c.epochs b.units < 2 ^ 31) :
    b.decoder.InEpoch := fun k _ => by
  rw [h k, hclockShows.epoch_now, c.epoch_eq_of_lt hrange]

theorem Behind.not_inEpoch (h : b.Behind) (hclockShows : b.ClockShowsTime)
    (hrange : c.epochs b.units < 2 ^ 31) :
    ¬ b.decoder.InEpoch := by
  intro hin
  have hlt := h.epoch_lt .special
  rw [hin .special h.waiting, hclockShows.epoch_now, c.epoch_eq_of_lt hrange] at hlt
  exact Int.lt_irrefl _ hlt

/-- What a unit adds, apart from markers, is stored in the epoch of its buffer, and stamped in the epoch
of the device time before the unit. -/
theorem ClockShowsTime.epochs_of_mem_addedBy (h : b.ClockShowsTime) {unit : List UInt8}
    {k : EventKind} {a : Added k}
    (ha : a ∈ b.addedBy unit k) (hmarker : k.isMarker a.record = false) :
    a.epoch = (b.decoder.buffer k).epoch ∧ c.epochs a.past = c.epochs b.units := by
  obtain ⟨body, hleads⟩ := c.leads b.decoder.device unit
  obtain ⟨hpast, hepoch, hplain⟩ := Decoder.mem_additions_leads hleads ha
  refine ⟨hepoch, ?_⟩
  rw [hpast]
  exact h.epochs_of_quiet (Mark.forces_of_not_fillsUnit (hplain hmarker).1 _)

/-- As long as no refusal is in force, no sample outlives a reset or the end of an epoch in the units of
a call. -/
theorem ClockShowsTime.sampleFresh_of_not_refused (h : b.ClockShowsTime)
    (hreplace : b.decoder.collector.Replaceable) {past moves : List Move}
    {units : List (List UInt8)} (hreach : units.map .unit <+: (b.run past).reach moves)
    (hno : ¬ b.Refused (past ++ units.map .unit)) :
    c.SampleFresh (b.run past).units units (b.run (past ++ units.map .unit)).decoder.device := by
  rw [run_append]
  refine (h.run past).sampleFresh fun before unit after heq hunit => ?_
  subst heq
  have hreplace' := replaceable_run (replaceable_run hreplace past) (before.map .unit)
  rcases hunit with hends | hreset
  · by_contra hfail
    -- A unit that fails is the last one of its call.
    have hnil : after.map Move.unit = [] := by
      by_contra hafter
      rw [List.map_append, List.map_cons] at hreach
      exact hfail (isOk_of_prefix_reach hreach hafter)
    obtain rfl := List.map_eq_nil_iff.1 hnil
    rw [← (b.run past).units_run_units] at hends
    rw [((h.run past).run _).isOk_make_iff hreplace' hends, Bool.not_eq_true] at hfail
    rw [List.map_append, ← List.append_assoc] at hno
    refine hno ((h.refused_concat hreplace).2 (.inl ⟨unit, rfl, ?_⟩))
    rw [run_append]
    exact ⟨hends, hfail⟩
  · exact isOk_make_of_reset hreplace' hreset

/-- A refusal in force decides about the epochs, as long as they fit their counter. After the units of a
call the buffers that hold events are in the epoch of the clock, and no sample outlived a reset or the
end of an epoch in the call, exactly if none is in force. The events of any later unit are stored in
the epoch of their time exactly if none is in force then, and in an earlier epoch otherwise. -/
structure RefusalDecides (b : Ledger c.device) (past : List Move) (units : List (List UInt8))
    (b' : Ledger c.device) : Prop where
  now : c.InRange b'.units → (b'.decoder.InEpoch ∧ c.SampleFresh (b.run past).units units b'.decoder.device ↔
    ¬ b.Refused (past ++ units.map .unit))
  later : ∀ later unit k, c.InRange (b'.run later).units →
    ∀ a ∈ (b'.run later).addedBy unit k, k.isMarker a.record = false →
    a.epoch ≤ c.epochs a.past ∧ (a.epoch = c.epochs a.past ↔
      ¬ b.Refused (past ++ units.map .unit ++ later))

/-- The buffers are where they should be, and so is the sample, exactly if no refusal is in force. -/
theorem ClockShowsTime.inEpoch_iff (h : b.ClockShowsTime)
    (hreplace : b.decoder.collector.Replaceable) (hstep : b.InStep)
    {past moves : List Move} {units : List (List UInt8)}
    (hreach : units.map .unit <+: (b.run past).reach moves)
    (hrange : c.InRange (b.run (past ++ units.map .unit)).units) :
    (b.run (past ++ units.map .unit)).decoder.InEpoch ∧ c.SampleFresh (b.run past).units units
        (b.run (past ++ units.map .unit)).decoder.device ↔
      ¬ b.Refused (past ++ units.map .unit) := by
  rcases h.run_cases hreplace hstep (past ++ units.map .unit) hrange with
    ⟨hrefused, hbehind⟩ | ⟨hno, hin⟩
  · exact ⟨fun hgood => absurd hgood.1 (hbehind.not_inEpoch (h.run _) hrange.now),
      fun hno => absurd hrefused hno⟩
  · exact ⟨fun _ => hno, fun _ => ⟨hin.inEpoch (h.run _) hrange.now,
      h.sampleFresh_of_not_refused hreplace hreach hno⟩⟩

theorem ClockShowsTime.refusalDecides (h : b.ClockShowsTime)
    (hreplace : b.decoder.collector.Replaceable) (hstep : b.InStep)
    {past moves : List Move} {units : List (List UInt8)}
    (hreach : units.map .unit <+: (b.run past).reach moves) (hs : List Handover) :
    b.RefusalDecides past units ((b.run (past ++ units.map .unit)).count hs) := by
  refine ⟨h.inEpoch_iff hreplace hstep hreach, fun later unit k hrange a ha hmarker => ?_⟩
  rw [run_count, ← run_append] at ha hrange
  replace hrange : c.InRange (b.run (past ++ units.map .unit ++ later)).units := hrange
  obtain ⟨hepoch, hepochs⟩ := ((h.run _).count hs).epochs_of_mem_addedBy ha hmarker
  rw [hepoch, hepochs]
  rcases h.run_cases hreplace hstep (past ++ units.map .unit ++ later) hrange with
    ⟨hrefused, hbehind⟩ | ⟨hno, hin⟩
  · have hlt := hbehind.epoch_lt k
    exact ⟨Int.le_of_lt hlt, fun heq => absurd heq (Int.ne_of_lt hlt),
      fun hno => absurd hrefused hno⟩
  · exact ⟨Int.le_of_eq (hin k), fun _ => hno, fun _ => hin k⟩

theorem inStep_start {settings : Settings} {d : Decoder c.device}
    (h : Decoder.start c.device settings = .ok d) : InStep { decoder := d } := by
  intro k
  rw [(Decoder.start_ok h).epoch_eq k]
  exact c.epochs_nil.symm

end Ledger

/-- Whatever calls came before, and whatever a call comes to: as long as there is memory for new buffers,
what is in the buffers, and what is added later, is in the epoch of its time unless the end of an epoch
was refused and nothing was sealed since. -/
theorem session_refusalDecides {c : Camera} {settings : Settings} {d d₁ d₂ : Decoder c.device}
    {calls : List Call} {bytes : List UInt8} {x₁ x₁' x₂ x₂' : Exchange}
    {log₁ log₂ : List Occurrence} {results : List (Except DecodeError Unit)}
    {result : Except DecodeError Unit} (hstart : Decoder.start c.device settings = .ok d)
    (hsession : Execution (session Decoder.call calls d) x₁ log₁ (d₁, results) x₁')
    (hcall : Execution (d₁.decode bytes) x₂ log₂ (d₂, result) x₂') (hmemory : settings.Spares) :
    ∃ (b₁ b₂ : Ledger c.device) (past : List Move) (units : List (List UInt8)),
      Execution (session Ledger.call calls { decoder := d }) x₁ log₁ (b₁, results) x₁' ∧
      b₁.decoder = d₁ ∧ Trace (b₁.call (.decode bytes)) (stepsOf log₂) (b₂, result) ∧
      b₂.decoder = d₂ ∧ Ledger.Course { decoder := d } past (handovers (stepsOf log₁)) b₁ ∧
      b₁.Course (units.map .unit) (handovers (stepsOf log₂)) b₂ ∧
      units <+: Decoder.units c.device.unitWidth bytes ∧
      Ledger.RefusalDecides { decoder := d } past units b₂ := by
  obtain ⟨b₁, hb₁, rfl⟩ := Ledger.exists_execution { decoder := d } hsession
  obtain ⟨past, hpast, -⟩ := Ledger.trace_session hb₁.trace
  obtain ⟨b₂, hb₂, rfl⟩ := Ledger.exists_trace b₁ (c := .decode bytes) hcall.trace
  obtain ⟨units, hunits, hreach, hnow⟩ := Ledger.exists_decoded hb₂
  refine ⟨b₁, b₂, past, units, hb₁, rfl, hb₂, rfl, hpast, hnow, hunits, ?_⟩
  rw [hpast.end_eq, Ledger.reach_count] at hreach
  rw [(hpast.append hnow).end_eq]
  exact (Ledger.clockShowsTime_start hstart).refusalDecides ((Decoder.start_ok hstart).replaceable hmemory)
    (Ledger.inStep_start hstart) hreach _

open Wire.DvXplorer.Encode in
/-- A DVXplorer whose counter turns so often that an epoch ends, with pulses before and after it, and a
sample that is started before it. -/
def samplePulses (before after : Nat) : List UInt8 :=
  tick 1000 ++ imuStart ++ (List.replicate before (special 4)).flatten ++
    (List.replicate 16 (wrap 4095)).flatten ++ wrap 16 ++
    (List.replicate after (special 4)).flatten

def sampleSettings (capacityLimit : Nat) : Settings :=
  { maxEvents := 0, maxInterval := maxTime, capacityLimit }

theorem session_refusalDecides_dvXplorer :
    ∃ (d d' : Decoder (Camera.dvXplorer Wire.DvXplorer.fullArray).device) (log : List Occurrence)
      (result : Except DecodeError Unit) (x' : Exchange),
      Decoder.start (Camera.dvXplorer Wire.DvXplorer.fullArray).device (sampleSettings 2) = .ok d ∧
      Execution (session Decoder.call [] d) (.start 3) [] (d, []) (.start 3) ∧
      Execution (d.decode (samplePulses 1 3)) (.start 3) log (d', result) x' ∧
      result.isOk = false ∧ d'.InEpoch ∧
      ∃ (b₁ b₂ : Ledger (Camera.dvXplorer Wire.DvXplorer.fullArray).device) (past : List Move)
        (units : List (List UInt8)),
        Execution (session Ledger.call [] { decoder := d }) (.start 3) [] (b₁, []) (.start 3) ∧
        b₁.decoder = d ∧ Trace (b₁.call (.decode (samplePulses 1 3))) (stepsOf log) (b₂, result) ∧
        b₂.decoder = d' ∧ Ledger.Course { decoder := d } past (handovers (stepsOf [])) b₁ ∧
        b₁.Course (units.map .unit) (handovers (stepsOf log)) b₂ ∧
        units <+: Decoder.units 2 (samplePulses 1 3) ∧
        Ledger.RefusalDecides { decoder := d } past units b₂ := by
  have hrun : leaves (Camera.dvXplorer Wire.DvXplorer.fullArray).device (sampleSettings 2)
      (samplePulses 1 3) (.start 3) fun d' result => !result.isOk && decide d'.InEpoch := by
    decide +kernel
  obtain ⟨d, d', result, log, x', hd, h, htest⟩ := exists_of_leaves hrun
  simp only [Bool.and_eq_true, Bool.not_eq_true', decide_eq_true_eq] at htest
  have hsession : Execution (session Decoder.call [] d) (.start 3) [] (d, []) (.start 3) :=
    .done ..
  exact ⟨d, d', log, result, x', hd, hsession, h, htest.1, htest.2,
    session_refusalDecides hd hsession h (by decide)⟩

/-- A marker that finds no room: the clock is in the next epoch, the special events are in the one before,
and the sample that was started before the end of the epoch is still open. -/
theorem not_inEpoch_of_refused_dvXplorer :
    ∃ (d d' : Decoder (Camera.dvXplorer Wire.DvXplorer.fullArray).device) (log : List Occurrence)
      (e : DecodeError) (x' : Exchange), (sampleSettings 8).validate = .ok () ∧
      Decoder.start (Camera.dvXplorer Wire.DvXplorer.fullArray).device (sampleSettings 8) = .ok d ∧
      Execution (d.decode (samplePulses 8 0)) (.start 3) log (d', .error e) x' ∧
      ¬ d'.InEpoch ∧
      ¬ (Camera.dvXplorer Wire.DvXplorer.fullArray).SampleFresh []
        (Decoder.units 2 (samplePulses 8 0)) d'.device := by
  have hrun : leaves (Camera.dvXplorer Wire.DvXplorer.fullArray).device (sampleSettings 8)
      (samplePulses 8 0) (.start 3) fun d' result => !result.isOk && !decide d'.InEpoch &&
        (Camera.dvXplorer Wire.DvXplorer.fullArray).sampling d'.device := by decide +kernel
  obtain ⟨d, d', result, log, x', hd, h, htest⟩ := exists_of_leaves hrun
  simp only [Bool.and_eq_true, Bool.not_eq_true', decide_eq_false_iff_not] at htest
  obtain ⟨⟨hfail, hbehind⟩, hsampling⟩ := htest
  cases result with
  | ok => cases hfail
  | error e =>
    refine ⟨d, d', log, e, x', by decide, hd, h, hbehind, fun hfresh => ?_⟩
    have hunits : Decoder.units 2 (samplePulses 8 0) =
        (Decoder.units 2 (samplePulses 8 0)).dropLast ++ [Wire.DvXplorer.Encode.wrap 16] := by
      decide +kernel
    have hends : (Camera.dvXplorer Wire.DvXplorer.fullArray).EndsEpoch
        ([] ++ (Decoder.units 2 (samplePulses 8 0)).dropLast)
        (Wire.DvXplorer.Encode.wrap 16) := by decide +kernel
    obtain ⟨_, hnone, -⟩ := hfresh _ _ [] hunits (.inl hends) hsampling
    cases hnone

end EventCamera
