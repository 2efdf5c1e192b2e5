import EventCamera.Proofs.ExactTime
import EventCamera.Proofs.Resets
import EventCamera.Wire.DvXplorer.Encode

/-! # Epochs of containers

Every container is of one epoch. A marker ends the last container of an epoch, and a reset starts over
at epoch zero. -/

namespace EventCamera

/-! ## Containers in their epochs -/

/-- Whether a special event is the marker of a change of epoch. -/
def marksEpoch (e : EventKind.special.Record × Int) : Bool :=
  EventKind.isWrap .special e.1

/-- Whether the special events end with the marker of a change of epoch. -/
def Container.endsEpoch (c : Container) : Bool :=
  (c.stamped .special).getLast?.any marksEpoch

/-- The epoch after some containers, when they start in epoch `n`. -/
def epochAfter : List Sealed → (n : Int) → Int
  | [], n => n
  | .data c :: rest, n => epochAfter rest (if c.endsEpoch then n + 1 else n)
  | .reset _ :: rest, _ => epochAfter rest 0

/-- The containers are of consecutive epochs, from epoch `n` on. The next epoch starts after a container
that ends with a marker, and epoch zero after a reset. -/
def InEpochs : List Sealed → (n : Int) → Prop
  | [], _ => True
  | .data c :: rest, n => c.epoch = n ∧ InEpochs rest (if c.endsEpoch then n + 1 else n)
  | .reset _ :: rest, _ => InEpochs rest 0

theorem epochAfter_append (before after : List Sealed) (n : Int) :
    epochAfter (before ++ after) n = epochAfter after (epochAfter before n) := by
  induction before generalizing n with
  | nil => rfl
  | cons s before ih => cases s <;> exact ih _

theorem inEpochs_append {before after : List Sealed} {n : Int} :
    InEpochs (before ++ after) n ↔ InEpochs before n ∧ InEpochs after (epochAfter before n) := by
  induction before generalizing n with
  | nil => simp only [List.nil_append, InEpochs, epochAfter, true_and]
  | cons s before ih =>
    cases s with
    | data c => simp only [List.cons_append, InEpochs, epochAfter, ih, and_assoc]
    | reset c => exact ih

theorem le_epochAfter {containers : List Sealed} (h : ∀ s ∈ containers, s.isReset = false)
    (n : Int) : n ≤ epochAfter containers n := by
  induction containers generalizing n with
  | nil => exact Int.le_refl n
  | cons s containers ih =>
    obtain ⟨hfirst, hrest⟩ := List.forall_mem_cons.1 h
    cases s with
    | data c =>
      refine Int.le_trans ?_ (ih hrest _)
      split <;> omega
    | reset c => cases hfirst

theorem InEpochs.epoch_eq {before after : List Sealed} {c : Container} {n : Int}
    (h : InEpochs (before ++ .data c :: after) n) : c.epoch = epochAfter before n :=
  (inEpochs_append.1 h).2.1

/-- Behind the container that ends an epoch, up to the next reset, are only containers of later
epochs. -/
theorem InEpochs.lt_of_endsEpoch {before after : List Sealed} {c c' : Container} {n : Int}
    (h : InEpochs (before ++ .data c :: after) n) (hends : c.endsEpoch)
    (hc' : .data c' ∈ after.takeWhile fun s => !s.isReset) : c.epoch < c'.epoch := by
  obtain ⟨between, rest, hsplit⟩ := List.append_of_mem hc'
  have hafter := (List.takeWhile_append_dropWhile (p := fun s => !s.isReset) (l := after)).symm
  rw [hsplit, List.append_assoc, List.cons_append] at hafter
  have hnone : ∀ s ∈ between, s.isReset = false := by
    intro s hs
    have hmem : s ∈ after.takeWhile fun s => !s.isReset := hsplit ▸ List.mem_append_left _ hs
    simpa using List.all_eq_true.1 List.all_takeWhile s hmem
  have hfirst := h.epoch_eq
  have hlater := (inEpochs_append.1 h).2.2
  rw [if_pos hends, hafter] at hlater
  have hsecond := hlater.epoch_eq
  have hle := le_epochAfter hnone (epochAfter before n + 1)
  omega

/-! ## Ends of epochs -/

namespace Camera

/-- A unit takes the device time into the next epoch. -/
def EndsEpoch (c : Camera) (past : List (List UInt8)) (unit : List UInt8) : Prop :=
  c.epochs past < c.epochs (past ++ [unit])

instance {c : Camera} {past : List (List UInt8)} {unit : List UInt8} :
    Decidable (c.EndsEpoch past unit) :=
  inferInstanceAs (Decidable (_ < _))

def epochEnds (c : Camera) (units : List (List UInt8)) : Nat :=
  (List.range units.length).countP fun n => c.epochs (units.take n) < c.epochs (units.take (n + 1))

theorem epochEnds_append_singleton (c : Camera) (units : List (List UInt8)) (unit : List UInt8) :
    c.epochEnds (units ++ [unit]) =
      c.epochEnds units + if c.EndsEpoch units unit then 1 else 0 := by
  have hbefore : (List.range units.length).countP (fun n =>
      c.epochs ((units ++ [unit]).take n) < c.epochs ((units ++ [unit]).take (n + 1))) =
        c.epochEnds units := by
    refine List.countP_congr fun n hn => ?_
    have hlt := List.mem_range.1 hn
    rw [List.take_append_of_le_length (by omega), List.take_append_of_le_length (by omega)]
  rw [epochEnds, List.length_append, List.length_singleton, List.range_succ, List.countP_append,
    hbefore, List.countP_singleton, List.take_left, List.take_of_length_le (by simp)]
  simp only [decide_eq_true_eq]
  rfl

end Camera

theorem Mark.exists_turns {m : Mark} {c : Clock} (h : m.forces c = some .epochEnd) :
    ∃ count, m = .turns count ∧ c.endsEpoch (.ofNat count) := by
  cases m with
  | silent | tick | reset => cases h
  | turns count =>
    refine ⟨count, rfl, ?_⟩
    simp only [forces] at h
    split at h
    · assumption
    · cases h

namespace Ledger

variable {c : Camera} {b : Ledger c.device}

/-- The end of an epoch is forced exactly by the units that the device time runs over at. -/
theorem ClockShowsTime.endsEpoch_iff (h : b.ClockShowsTime) {unit : List UInt8} :
    c.EndsEpoch b.units unit ↔ (c.mark unit).forces b.decoder.clock = some .epochEnd := by
  rw [Camera.EndsEpoch, h.epochs_unit]
  have hnonneg := c.epochs_nonneg b.units
  cases (c.mark unit).forces b.decoder.clock with
  | none => simp [Forced.nextEpoch]
  | some forced =>
    cases forced with
    | reset => simpa [Forced.nextEpoch] using hnonneg
    | epochEnd => exact iff_of_true (Int.lt_succ (c.epochs b.units)) rfl

theorem not_isWrap_of_addedBy {unit : List UInt8}
    (h : (c.mark unit).forces b.decoder.clock ≠ some .epochEnd) {k : EventKind} {a : Added k}
    (ha : a ∈ b.addedBy unit k) : k.isWrap a.record = false := by
  obtain ⟨body, hleads⟩ := c.leads b.decoder.device unit
  have hbeside (hfills : (c.mark unit).fillsUnit = false) : k.isWrap a.record = false := by
    obtain ⟨-, -, hplain, -⟩ := Decoder.mem_additions_beside hleads hfills ha
    rw [EventKind.isMarker_eq, Bool.or_eq_false_iff] at hplain
    exact hplain.1
  cases hm : c.mark unit with
  | silent | tick => exact hbeside (by rw [hm]; rfl)
  | turns count =>
    rw [hm] at h
    rw [addedBy, Camera.codes_of_fillsUnit hm rfl] at ha
    have hends := (Decoder.mem_additions_turns ha).2.2.1
    exact absurd (if_pos hends) h
  | reset =>
    rw [addedBy_reset hm] at ha
    cases ha

/-- The end of an epoch adds its marker and nothing else. -/
theorem addedBy_of_epochEnd {unit : List UInt8}
    (h : (c.mark unit).forces b.decoder.clock = some .epochEnd)
    (hok : (b.decoder.applyUnit unit).result.isOk) (k : EventKind) :
    b.addedBy unit k = (only .special [SpecialEvent.wrap] k).map
      (⟨·, (b.decoder.buffer k).epoch, b.units ++ [unit]⟩) := by
  obtain ⟨count, hm, hends⟩ := Mark.exists_turns h
  have hcodes := Camera.codes_of_fillsUnit hm rfl b.decoder.device
  rw [Decoder.applyUnit, hcodes] at hok
  rw [addedBy, hcodes, Decoder.additions_turns hok k]
  exact if_pos hends

/-! ## Steps -/

/-- Special events of which only the last one can mark the end of an epoch. -/
def MarkedLast (specials : List (EventKind.special.Record × Int)) (ends : Bool) : Prop :=
  (∀ e ∈ specials.dropLast, marksEpoch e = false) ∧ specials.getLast?.any marksEpoch = ends

theorem markedLast_of_none {specials : List (EventKind.special.Record × Int)}
    (h : ∀ e ∈ specials, marksEpoch e = false) : MarkedLast specials false := by
  refine ⟨fun e he => h e (List.dropLast_subset _ he), ?_⟩
  cases hlast : specials.getLast? with
  | none => rfl
  | some e => exact h e (List.mem_of_getLast? hlast)

theorem markedLast_concat {specials : List (EventKind.special.Record × Int)}
    (h : ∀ e ∈ specials, marksEpoch e = false) {e : EventKind.special.Record × Int}
    (he : marksEpoch e) : MarkedLast (specials ++ [e]) true := by
  refine ⟨?_, ?_⟩
  · rwa [List.dropLast_concat]
  · rw [List.getLast?_concat]
    exact he

theorem MarkedLast.countP_eq {specials : List (EventKind.special.Record × Int)} {ends : Bool}
    (h : MarkedLast specials ends) : specials.countP marksEpoch = if ends then 1 else 0 := by
  obtain ⟨hbefore, hlast⟩ := h
  rcases specials.eq_nil_or_concat with rfl | ⟨before, last, rfl⟩
  · rw [← hlast]
    rfl
  · rw [List.concat_eq_append] at hbefore hlast ⊢
    rw [List.dropLast_concat] at hbefore
    rw [List.getLast?_concat] at hlast
    rw [List.countP_append, List.countP_eq_zero.2 fun e he => ne_true_of_eq_false (hbefore e he),
      Nat.zero_add, List.countP_singleton, ← hlast]
    rfl

/-- What a step comes to that forces `forced`: the marker is added where the epoch ends, and the
epochs are counted. -/
structure Turned (b : Ledger c.device) (m : Move) (forced : Option Forced) : Prop where
  result_eq : (b.decoder.moved m).result = .ok forced
  specials : MarkedLast ((b.decoder.moved m).decoder.buffer .special).stamped
    (forced == some .epochEnd)
  buffer_epoch : ∀ k, ((b.decoder.moved m).decoder.buffer k).epoch = c.epochs b.units
  epochs_eq : c.epochs (b.advance m).units = Forced.nextEpoch forced (c.epochs b.units)
  epochEnds_eq : c.epochEnds (b.advance m).units =
    c.epochEnds b.units + if forced == some .epochEnd then 1 else 0

/-- Every container is of one epoch, the epochs follow each other, and a marker is the last special
event of its container. As many markers were sealed as epochs ended, and none waits. -/
structure Epochal (b : Ledger c.device) : Prop where
  uniform : ∀ s ∈ b.sealed, ∀ k buffer, s.container.buffer? k = some buffer →
    buffer.epoch = s.container.epoch
  inEpochs : InEpochs b.sealed 0
  epoch_now : epochAfter b.sealed 0 = c.epochs b.units
  marked : ∀ container, .data container ∈ b.sealed →
    ∀ e ∈ (container.stamped .special).dropLast, marksEpoch e = false
  waiting : ∀ e ∈ (b.decoder.buffer .special).stamped, marksEpoch e = false
  count : (sealedEvents b.sealed .special).countP marksEpoch = c.epochEnds b.units

theorem Epochal.epoch_of_mem (h : b.Epochal) {container : Container}
    (hc : .data container ∈ b.sealed) {k : EventKind} {e : k.Record × Int}
    (he : e ∈ container.stamped k) : e.2 = container.epoch := by
  unfold Container.stamped at he
  cases hbuffer : container.buffer? k with
  | none =>
    rw [hbuffer] at he
    cases he
  | some buffer =>
    rw [hbuffer] at he
    obtain ⟨_, -, rfl⟩ := List.mem_map.1 he
    exact h.uniform _ hc k buffer hbuffer

theorem Epochal.turned (h : b.Epochal) (htimed : b.EventsTimed) (hrange : c.InRange b.units) {m : Move}
    (hok : (b.decoder.make m).result.isOk) : ∃ forced, b.Turned m forced := by
  obtain ⟨forced, hforced⟩ := (b.decoder.make_made m).exists_forced hok
  have hbuffer (k : EventKind) : (b.decoder.buffer k).epoch = c.epochs b.units :=
    ((htimed.epoch_eq k).trans htimed.clockShowsTime.epoch_now).trans (c.epoch_eq_of_lt hrange.now)
  refine ⟨forced, ?_⟩
  cases m with
  | rest =>
    obtain rfl : none = forced := Except.ok.inj hforced
    exact ⟨hforced, markedLast_of_none h.waiting, hbuffer, rfl, rfl⟩
  | unit unit =>
    obtain ⟨body, hleads⟩ := c.leads b.decoder.device unit
    have hforces := Decoder.forced_forEach_leads hleads hforced
    have hends : c.EndsEpoch b.units unit ↔ forced == some .epochEnd := by
      rw [htimed.clockShowsTime.endsEpoch_iff, beq_iff_eq, hforces]
      rfl
    refine ⟨hforced, ?_, fun k => ?_, ?_, ?_⟩
    · change MarkedLast ((b.decoder.applyUnit unit).decoder.buffer .special).stamped _
      rw [b.stamped_applyUnit]
      by_cases hend : forced = some .epochEnd
      · subst hend
        have hisOk : (b.decoder.applyUnit unit).result.isOk := by
          rw [show (b.decoder.applyUnit unit).result = _ from hforced]
          rfl
        rw [addedBy_of_epochEnd hforces.symm hisOk]
        exact markedLast_concat h.waiting rfl
      · rw [beq_false_of_ne hend]
        refine markedLast_of_none fun e he => ?_
        rcases List.mem_append.1 he with he | he
        · exact h.waiting e he
        · obtain ⟨a, ha, rfl⟩ := List.mem_map.1 he
          exact not_isWrap_of_addedBy (hforces ▸ hend) ha
    · exact (Decoder.epoch_forEach_apply _ _ k).trans (hbuffer k)
    · change c.epochs (b.units ++ [unit]) = _
      rw [htimed.clockShowsTime.epochs_unit, hforces]
      rfl
    · change c.epochEnds (b.units ++ [unit]) = _
      rw [c.epochEnds_append_singleton]
      simp only [hends]

variable {m : Move} {forced : Option Forced}

/-- A container that a step hands on is of the epoch before it, and ends that epoch if its end was
forced. -/
theorem Turned.of_mem (h : b.Turned m forced) {container : Container}
    (hc : .data container ∈ (b.decoder.make m).handedOn) :
    container.epoch = c.epochs b.units ∧
      (∀ k buffer, container.buffer? k = some buffer → buffer.epoch = container.epoch) ∧
      MarkedLast (container.stamped .special) (forced == some .epochEnd) := by
  have hmade := b.decoder.make_made m
  obtain ⟨_, sealing, -, ht, rfl, -⟩ := hmade.exists_emptied hc
  have hepoch : sealing.data.epoch = c.epochs b.units :=
    ht.epoch_eq.trans (Batch.epoch_eq h.buffer_epoch)
  refine ⟨hepoch, fun k buffer hbuffer => ?_, ?_⟩
  · rw [ht.buffer_eq] at hbuffer
    split at hbuffer
    · cases hbuffer
    · obtain rfl := Option.some.inj hbuffer
      exact (h.buffer_epoch k).trans hepoch.symm
  · rw [ht.stamped_data]
    exact h.specials

/-- What a step hands on is in its epochs, and the epoch after it is the one of the clock. -/
theorem Turned.inEpochs (h : b.Turned m forced) (hok : (b.decoder.make m).result.isOk) :
    InEpochs (b.decoder.make m).handedOn (c.epochs b.units) ∧
      epochAfter (b.decoder.make m).handedOn (c.epochs b.units) =
        Forced.nextEpoch forced (c.epochs b.units) := by
  obtain ⟨data?, reset?, heq, hreset, hnone⟩ :=
    (b.decoder.make_made m).exists_handedOn hok h.result_eq
  have hdata (container : Container) (hc : container ∈ data?) :
      container.epoch = c.epochs b.units ∧ container.endsEpoch = (forced == some .epochEnd) := by
    have hmem : .data container ∈ (b.decoder.make m).handedOn := by
      rw [heq, Option.mem_def.1 hc]
      exact List.mem_cons_self
    obtain ⟨hepoch, -, hmarked⟩ := h.of_mem hmem
    exact ⟨hepoch, hmarked.2⟩
  rw [heq]
  cases data? with
  | none =>
    cases forced with
    | none =>
      obtain rfl : reset? = none := by simpa using hreset
      exact ⟨trivial, rfl⟩
    | some forced =>
      -- Nothing waited, so that no marker was added.
      have hmarked := h.specials.2
      rw [hnone rfl rfl .special] at hmarked
      cases forced with
      | epochEnd => cases hmarked
      | reset =>
        obtain ⟨r, rfl⟩ := Option.isSome_iff_exists.1 (hreset.2 rfl)
        exact ⟨trivial, rfl⟩
  | some container =>
    obtain ⟨hepoch, hends⟩ := hdata container rfl
    cases forced with
    | none =>
      obtain rfl : reset? = none := by simpa using hreset
      exact ⟨⟨hepoch, trivial⟩, by simp [epochAfter, hends, Forced.nextEpoch]⟩
    | some forced =>
      cases forced with
      | epochEnd =>
        obtain rfl : reset? = none := by simpa using hreset
        exact ⟨⟨hepoch, trivial⟩, by simp [epochAfter, hends, Forced.nextEpoch]⟩
      | reset =>
        obtain ⟨r, rfl⟩ := Option.isSome_iff_exists.1 (hreset.2 rfl)
        exact ⟨⟨hepoch, trivial⟩, rfl⟩

/-- The markers that a step hands on are those that it adds. -/
theorem Turned.count_eq (h : b.Turned m forced) (hok : (b.decoder.make m).result.isOk) :
    (∀ e ∈ ((b.decoder.make m).decoder.buffer .special).stamped, marksEpoch e = false) ∧
      (sealedEvents (b.decoder.make m).handedOn .special).countP marksEpoch =
        if forced == some .epochEnd then 1 else 0 := by
  have hmade := b.decoder.make_made m
  have hparts := hmade.sealedEvents_append .special
  have hwaiting : ∀ e ∈ ((b.decoder.make m).decoder.buffer .special).stamped,
      marksEpoch e = false := by
    intro e he
    cases forced with
    | none =>
      have hmem := hparts ▸ List.mem_append_right _ he
      have hnone := h.specials.countP_eq
      exact Bool.eq_false_iff.2 (List.countP_eq_zero.1 hnone e hmem)
    | some forced =>
      rw [Buffer.isEmpty_iff.1 (hmade.isEmpty_of_forced hok h.result_eq .special)] at he
      cases he
  refine ⟨hwaiting, ?_⟩
  rw [← h.specials.countP_eq, ← hparts, List.countP_append,
    List.countP_eq_zero.2 fun e he => ne_true_of_eq_false (hwaiting e he), Nat.add_zero]

theorem Epochal.advance (h : b.Epochal) (htimed : b.EventsTimed) (hrange : c.InRange b.units)
    (hok : (b.decoder.make m).result.isOk) : (b.advance m).Epochal := by
  obtain ⟨forced, hturned⟩ := h.turned htimed hrange hok
  obtain ⟨hinEpochs, hafter⟩ := hturned.inEpochs hok
  obtain ⟨hwaiting, hcount⟩ := hturned.count_eq hok
  have hsealed := b.sealed_advance m
  refine ⟨fun s hs => ?_, ?_, ?_, fun container hc => ?_, ?_, ?_⟩
  · rw [hsealed] at hs
    rcases List.mem_append.1 hs with hs | hs
    · exact h.uniform s hs
    · cases s with
      | data container => exact (hturned.of_mem hs).2.1
      | reset container =>
        obtain ⟨epoch, highest, rfl⟩ := (b.decoder.make_made m).eq_reset hs
        intro k buffer hbuffer
        cases k <;> cases hbuffer
        rfl
  · rw [hsealed, inEpochs_append, h.epoch_now]
    exact ⟨h.inEpochs, hinEpochs⟩
  · rw [hsealed, epochAfter_append, h.epoch_now, hafter, hturned.epochs_eq]
  · rw [hsealed] at hc
    rcases List.mem_append.1 hc with hc | hc
    · exact h.marked container hc
    · exact (hturned.of_mem hc).2.2.1
  · rw [b.decoder_advance]
    exact hwaiting
  · rw [hsealed, sealedEvents_append, List.countP_append, h.count, hcount, hturned.epochEnds_eq]

theorem Epochal.count_handovers (h : b.Epochal) (hs : List Handover) : (b.count hs).Epochal :=
  ⟨h.uniform, h.inEpochs, h.epoch_now, h.marked, h.waiting, h.count⟩

theorem epochal_start {settings : Settings} {d : Decoder c.device}
    (h : Decoder.start c.device settings = .ok d) : Epochal { decoder := d } := by
  have hnone : (d.buffer .special).stamped = [] :=
    Buffer.isEmpty_iff.1 ((Decoder.start_ok h).isEmpty .special)
  have hends : c.epochEnds [] = 0 := rfl
  refine ⟨List.forall_mem_nil _, trivial, ?_, fun _ hc => ?_, ?_, ?_⟩
  · exact c.epochs_nil.symm
  · cases hc
  · change ∀ e ∈ (d.buffer .special).stamped, marksEpoch e = false
    rw [hnone]
    exact List.forall_mem_nil _
  · exact hends.symm

/-- While no step fails and the epochs fit their counter, a run keeps the epochs of its containers. -/
theorem Succeeds.epochal {moves : List Move} (h : b.Succeeds moves) (htimed : b.EventsTimed)
    (hepochal : b.Epochal) (hrange : c.InRange (b.run moves).units) :
    (b.run moves).EventsTimed ∧ (b.run moves).Epochal := by
  refine ⟨h.eventsTimed htimed, h.induction_units htimed (Q := c.InRange)
    (fun hpast hrange => hrange.of_prefix hpast) (fun {b m} hb hearlier hok hrange => ?_)
    hepochal hrange⟩
  exact hearlier.advance hb (hrange.of_prefix (b.units_prefix_run [m])) hok

/-! ## Where an epoch ends -/

/-- The container that ends the epoch of some units: its last special event is the marker, and it is
the last one that holds events of units up to the end of the epoch. -/
structure EndsWith (b : Ledger c.device) (past : List (List UInt8)) (before : List Sealed)
    (container : Container) (after : List Sealed) : Prop where
  sealed_eq : b.sealed = before ++ .data container :: after
  epoch_eq : container.epoch = c.epochs past
  marker : ∃ specials, container.stamped .special =
    specials ++ [(SpecialEvent.wrap, container.epoch)]
  last : ∀ container', .data container' ∈ (after.takeWhile fun s => !s.isReset) →
    container.epoch < container'.epoch
  before_eq : ∀ k, sealedEvents (before ++ [.data container]) k =
    ((b.added k).filter fun a => a.past.length ≤ past.length + 1).map Added.stamped
  after_eq : ∀ k, sealedEvents after k ++ (b.decoder.buffer k).stamped =
    ((b.added k).filter fun a => past.length + 1 < a.past.length).map Added.stamped

/-- The unit that ends an epoch seals the container that ends it. -/
theorem Epochal.handedOn_eq (h : b.Epochal) (htimed : b.EventsTimed) (hrange : c.InRange b.units)
    {unit : List UInt8}
    (hok : (b.decoder.make (.unit unit)).result.isOk) (hends : c.EndsEpoch b.units unit) :
    ∃ container, (b.decoder.make (.unit unit)).handedOn = [.data container] ∧
      container.epoch = c.epochs b.units ∧
      (∃ specials, container.stamped .special =
        specials ++ [(SpecialEvent.wrap, container.epoch)]) ∧
      ∀ k, ((b.decoder.make (.unit unit)).decoder.buffer k).stamped = [] := by
  have hmade := b.decoder.make_made (.unit unit)
  obtain ⟨forced, hturned⟩ := h.turned htimed hrange hok
  obtain ⟨body, hleads⟩ := c.leads b.decoder.device unit
  have hforces := htimed.clockShowsTime.endsEpoch_iff.1 hends
  obtain rfl : forced = some .epochEnd :=
    (Decoder.forced_forEach_leads hleads hturned.result_eq).trans hforces
  have hisOk : (b.decoder.applyUnit unit).result.isOk := by
    rw [show (b.decoder.applyUnit unit).result = _ from hturned.result_eq]
    rfl
  have hstamped : ((b.decoder.applyUnit unit).decoder.buffer .special).stamped =
      (b.decoder.buffer .special).stamped ++ [(SpecialEvent.wrap, c.epochs b.units)] := by
    rw [b.stamped_applyUnit, addedBy_of_epochEnd hforces hisOk, htimed.epoch_eq,
      htimed.clockShowsTime.epoch_now, c.epoch_eq_of_lt hrange.now]
    rfl
  obtain ⟨data?, reset?, heq, hreset, hnone⟩ := hmade.exists_handedOn hok hturned.result_eq
  obtain rfl : reset? = none := by simpa using hreset
  cases data? with
  | none =>
    have hempty := hnone rfl rfl .special
    rw [show ((b.decoder.moved (.unit unit)).decoder.buffer .special).stamped = _ from hstamped]
      at hempty
    simp at hempty
  | some container =>
    have hmem : .data container ∈ (b.decoder.make (.unit unit)).handedOn := by
      rw [heq]
      exact List.mem_cons_self
    obtain ⟨hepoch, -, -⟩ := hturned.of_mem hmem
    refine ⟨container, heq, hepoch, ⟨(b.decoder.buffer .special).stamped, ?_⟩, fun k =>
      Buffer.isEmpty_iff.1 (hmade.isEmpty_of_forced hok hturned.result_eq k)⟩
    rw [hepoch]
    exact (hmade.stamped_of_mem hmem .special).trans hstamped

/-- Whatever comes after it, the container that ends an epoch stays where it is. -/
theorem Epochal.endsWith (h : b.Epochal) (htimed : b.EventsTimed) (hconserved : b.Conserved)
    {unit : List UInt8} {rest : List Move} (hsucceeds : b.Succeeds (.unit unit :: rest))
    (hrange : c.InRange (b.run (.unit unit :: rest)).units)
    (hends : c.EndsEpoch b.units unit) : ∃ before container after,
      (b.run (.unit unit :: rest)).EndsWith b.units before container after := by
  have hearlier := hrange.of_prefix (b.units_prefix_run (.unit unit :: rest))
  obtain ⟨container, hhanded, hepoch, ⟨specials, hmarker⟩, hempty⟩ :=
    h.handedOn_eq htimed hearlier hsucceeds.1 hends
  have hthen := hconserved.advance (.unit unit)
  have hnow : (b.advance (.unit unit)).sealed = b.sealed ++ [.data container] :=
    congrArg (b.sealed ++ ·) hhanded
  have hmore : (b.advance (.unit unit)).units.length = b.units.length + 1 := List.length_append
  obtain ⟨after, hafter⟩ := (b.advance (.unit unit)).sealed_prefix_run rest
  have hwhole : (b.run (.unit unit :: rest)).sealed = b.sealed ++ .data container :: after := by
    rw [run, List.foldl_cons, ← run, ← hafter, hnow, List.append_assoc]
    rfl
  have hsealed (k : EventKind) : sealedEvents (b.sealed ++ [.data container]) k =
      ((b.advance (.unit unit)).added k).map Added.stamped := by
    rw [← hthen.events k, hnow]
    exact (List.append_nil _).symm.trans (congrArg _ (hempty k).symm)
  -- What was added up to the unit and what was added later, told apart by the units before.
  have hpast (k : EventKind) : ∀ a ∈ (b.advance (.unit unit)).added k,
      a.past.length ≤ b.units.length + 1 := by
    intro a ha
    exact hmore ▸ ((htimed.advance hsucceeds.1).added k a ha).1.length_le
  have hadded (k : EventKind) : ∃ later, (b.run (.unit unit :: rest)).added k =
      (b.advance (.unit unit)).added k ++ later ∧ ∀ a ∈ later, b.units.length + 1 < a.past.length :=
    hmore ▸ (b.advance (.unit unit)).exists_added_run rest k
  refine ⟨b.sealed, container, after, hwhole, hepoch, ⟨specials, hmarker⟩, fun _ hc => ?_,
    fun k => ?_, fun k => ?_⟩
  · have hinEpochs := (hsucceeds.epochal htimed h hrange).2.inEpochs
    rw [hwhole] at hinEpochs
    refine hinEpochs.lt_of_endsEpoch ?_ hc
    rw [Container.endsEpoch, hmarker, List.getLast?_concat]
    rfl
  · obtain ⟨later, heq, hlater⟩ := hadded k
    have hnone : later.filter (fun a => a.past.length ≤ b.units.length + 1) = [] :=
      List.filter_eq_nil_iff.2 fun a ha hle =>
        Nat.not_le_of_lt (hlater a ha) (of_decide_eq_true hle)
    rw [hsealed, heq, List.filter_append, hnone, List.append_nil,
      List.filter_eq_self.2 fun a ha => decide_eq_true (hpast k a ha)]
  · obtain ⟨later, heq, hlater⟩ := hadded k
    have hnone : ((b.advance (.unit unit)).added k).filter
        (fun a => b.units.length + 1 < a.past.length) = [] :=
      List.filter_eq_nil_iff.2 fun a ha hlt =>
        Nat.not_le_of_lt (of_decide_eq_true hlt) (hpast k a ha)
    have hall := (hthen.run rest).events k
    rw [← hafter, hnow, sealedEvents_append, hsealed, List.append_assoc] at hall
    rw [heq, List.filter_append, hnone, List.nil_append,
      List.filter_eq_self.2 fun a ha => decide_eq_true (hlater a ha)]
    refine List.append_cancel_left (hall.trans ?_)
    rw [← List.map_append]
    exact congrArg _ heq

/-- A unit of a run is a step of it, behind those that made up the units before it. -/
theorem exists_moves_of_units {d : Decoder c.device} {moves : List Move}
    {past later : List (List UInt8)} {unit : List UInt8}
    (h : (run { decoder := d } moves).units = past ++ unit :: later) : ∃ before after,
      moves = before ++ .unit unit :: after ∧ (run { decoder := d } before).units = past := by
  have hmoves : moves.filterMap Move.unit? = past ++ unit :: later := by
    rw [← h, units_run]
    rfl
  obtain ⟨front, back, rfl, hfront, hback⟩ := List.filterMap_eq_append_iff.1 hmoves
  obtain ⟨skipped, m, after, rfl, hskipped, hm, -⟩ := List.filterMap_eq_cons_iff.1 hback
  cases m with
  | rest => cases hm
  | unit unit' =>
    cases hm
    refine ⟨front ++ skipped, after, (List.append_assoc ..).symm, ?_⟩
    rw [units_run, List.filterMap_append, hfront, List.filterMap_eq_nil_iff.2 hskipped,
      List.append_nil]
    rfl

/-- Each end of an epoch has its container. -/
theorem exists_endsWith {d : Decoder c.device} {settings : Settings} {moves : List Move}
    (hstart : Decoder.start c.device settings = .ok d)
    (hsucceeds : Succeeds { decoder := d } moves) {past later : List (List UInt8)}
    {unit : List UInt8}
    (hunits : (run { decoder := d } moves).units = past ++ unit :: later)
    (hrange : c.InRange (run { decoder := d } moves).units)
    (hends : c.EndsEpoch past unit) : ∃ before container after,
      (run { decoder := d } moves).EndsWith past before container after := by
  obtain ⟨before, after, rfl, rfl⟩ := exists_moves_of_units hunits
  obtain ⟨hbefore, hrest⟩ := succeeds_append.1 hsucceeds
  rw [run_append] at hrange ⊢
  have hearlier := hrange.of_prefix (units_prefix_run _ _)
  obtain ⟨htimed, hepochal⟩ :=
    hbefore.epochal (eventsTimed_start hstart) (epochal_start hstart) hearlier
  exact hepochal.endsWith htimed ((conserved_start hstart).run _) hrest hrange hends

theorem EndsWith.count_handovers {past : List (List UInt8)} {before after : List Sealed}
    {container : Container} (h : b.EndsWith past before container after) (hs : List Handover) :
    (b.count hs).EndsWith past before container after :=
  ⟨h.sealed_eq, h.epoch_eq, h.marker, h.last, h.before_eq, h.after_eq⟩

end Ledger

/-- As long as no call fails and the epochs fit their counter, the containers of a camera are each of
one epoch, the epochs follow each other from zero on after each reset, and each end of an epoch has its
one marker, in the container that ends it. -/
theorem session_epochal {c : Camera} {settings : Settings} {d d' : Decoder c.device}
    {calls : List Call} {x x' : Exchange} {log : List Occurrence}
    {results : List (Except DecodeError Unit)}
    (hstart : Decoder.start c.device settings = .ok d)
    (h : Execution (session Decoder.call calls d) x log (d', results) x')
    (hok : ∀ r ∈ results, r.isOk) :
    ∃ (b : Ledger c.device) (moves : List Move),
      Execution (session Ledger.call calls { decoder := d }) x log (b, results) x' ∧
      b.decoder = d' ∧ b.Flawless d calls log moves ∧
      (c.InRange b.units → b.Epochal ∧
        ∀ past unit later, b.units = past ++ unit :: later → c.EndsEpoch past unit →
          ∃ before container after, b.EndsWith past before container after) := by
  obtain ⟨b, moves, hb, hd, hflawless⟩ := Ledger.exists_flawless hstart h hok
  have hend := hflawless.end_eq
  refine ⟨b, moves, hb, hd, hflawless, fun hrange => ?_⟩
  have hrange' : c.InRange (Ledger.run { decoder := d } moves).units := by
    rwa [hend] at hrange
  refine ⟨?_, fun past unit later hunits hends => ?_⟩
  · rw [hend]
    exact (hflawless.succeeds.epochal (Ledger.eventsTimed_start hstart)
      (Ledger.epochal_start hstart) hrange').2.count_handovers _
  · rw [hend] at hunits ⊢
    obtain ⟨before, container, after, hwith⟩ :=
      Ledger.exists_endsWith hstart hflawless.succeeds hunits hrange' hends
    exact ⟨before, container, after, hwith.count_handovers _⟩

open Wire.DvXplorer.Encode in
/-- A DVXplorer whose counter turns so often that the epoch ends, with a pulse before and after. -/
def sampleTurns : List Call :=
  [.decode (tick 5 ++ special 4 ++ (List.replicate 16 (wrap 4095)).flatten ++ wrap 16),
    .decode (tick 9 ++ special 4), .flush]

theorem session_epochal_dvXplorer :
    ∃ (d d' : Decoder (Camera.dvXplorer Wire.DvXplorer.fullArray).device) (log : List Occurrence)
      (results : List (Except DecodeError Unit)) (x' : Exchange),
      Decoder.start (Camera.dvXplorer Wire.DvXplorer.fullArray).device {} = .ok d ∧
      Execution (session Decoder.call sampleTurns d) (.start 3) log (d', results) x' ∧
      (∀ r ∈ results, r.isOk) ∧
      ∃ (b : Ledger (Camera.dvXplorer Wire.DvXplorer.fullArray).device) (moves : List Move),
        Execution (session Ledger.call sampleTurns { decoder := d }) (.start 3) log (b, results) x' ∧
        b.decoder = d' ∧ b.Flawless d sampleTurns log moves ∧ b.Epochal ∧
        (Camera.dvXplorer Wire.DvXplorer.fullArray).epochEnds b.units = 1 ∧
        ∀ past unit later, b.units = past ++ unit :: later →
          (Camera.dvXplorer Wire.DvXplorer.fullArray).EndsEpoch past unit →
            ∃ before container after, b.EndsWith past before container after := by
  have hrun : undisturbed (Camera.dvXplorer Wire.DvXplorer.fullArray).device {} sampleTurns
      (.start 3) := by decide +kernel
  have hends : (Camera.dvXplorer Wire.DvXplorer.fullArray).epochEnds
      (sampleTurns.flatMap (Call.units 2)) = 1 := by decide +kernel
  have hlength : (sampleTurns.flatMap (Call.units 2)).length = 21 := by decide +kernel
  obtain ⟨d, d', results, log, x', hd, h, hok, hsteady⟩ := exists_of_undisturbed hrun
  obtain ⟨b, moves, hb, hd', hflawless, hepochal⟩ := session_epochal hd h hok
  have hunits := hflawless.units_eq hsteady
  obtain ⟨hepochal, hwith⟩ := hepochal fun past hpast => by
    have hle := (Camera.dvXplorer Wire.DvXplorer.fullArray).epochs_le_length past
    have := hlength ▸ hunits ▸ hpast.length_le
    omega
  exact ⟨d, d', log, results, x', hd, h, hok, b, moves, hb, hd', hflawless, hepochal,
    hunits ▸ hends, hwith⟩

end EventCamera
