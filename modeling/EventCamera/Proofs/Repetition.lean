import EventCamera.Proofs.Assembly

/-! # Samples that are closed twice

An end marker does not close the record of a sample: it stays open, with all that was taken in. So a later
end marker can complete a sample once more, or complete one that was discarded before. Without such end
markers there is one sample for each start marker at most. An image is closed by its end marker. -/

namespace EventCamera

namespace Happened

def starts (x : Happened) : Bool :=
  match x.what with
  | .step _ .start _ _ => true
  | _ => false

def ends (x : Happened) : Bool :=
  match x.what with
  | .step _ .finish _ _ => true
  | _ => false

def completes (x : Happened) : Bool :=
  match x.what with
  | .step _ _ _ (.complete _) => true
  | _ => false

def discards (x : Happened) : Bool :=
  match x.what with
  | .step _ _ _ (.mismatch ..) => true
  | _ => false

theorem exists_of_starts {x : Happened} (h : x.starts = true) :
    ∃ kind time outcome, x.what = .step kind .start time outcome := by
  unfold starts at h
  split at h
  · exact ⟨_, _, _, ‹_›⟩
  · cases h

theorem exists_of_ends {x : Happened} (h : x.ends = true) :
    ∃ kind time outcome, x.what = .step kind .finish time outcome := by
  unfold ends at h
  split at h
  · exact ⟨_, _, _, ‹_›⟩
  · cases h

theorem exists_of_completes {x : Happened} (h : x.completes = true) :
    ∃ kind step time event, x.what = .step kind step time (.complete event) := by
  unfold completes at h
  split at h
  · exact ⟨_, _, _, _, ‹_›⟩
  · cases h

theorem exists_of_discards {x : Happened} (h : x.discards = true) :
    ∃ kind step time count expected, x.what = .step kind step time (.mismatch count expected) := by
  unfold discards at h
  split at h
  · exact ⟨_, _, _, _, _, ‹_›⟩
  · cases h

end Happened

/-- At most one sample is completed for each start marker, and none that was discarded. -/
structure SampledOnce (trail : List Happened) : Prop where
  count_le : trail.countP Happened.completes ≤ trail.countP Happened.starts
  once : ∀ front x middle y back, trail = front ++ x :: (middle ++ y :: back) →
    x.completes = true → y.completes = true → ∃ s ∈ middle, s.starts = true
  discarded : ∀ front x middle y back, trail = front ++ x :: (middle ++ y :: back) →
    x.discards = true → y.completes = true → ∃ s ∈ middle, s.starts = true

/-- An end marker finds all fields of a sample, and it is not the first one since the start marker. -/
def SpentTwice (trail : List Happened) : Prop :=
  ∃ front start inner finish back, trail = front ++ start :: (inner ++ finish :: back) ∧
    start.starts = true ∧ finish.ends = true ∧ (∀ x ∈ inner, Scratch.samples.Quiet x) ∧
    (∃ x ∈ inner, x.ends = true) ∧
    Wire.DvXplorer.fieldsOf (Scratch.samples.steps inner) = Wire.DvXplorer.sampleBytes

/-! ## Counting -/

theorem exists_last_of_mem {α : Type} {p : α → Bool} {l : List α} (h : ∃ a ∈ l, p a = true) :
    ∃ front a back, l = front ++ a :: back ∧ p a = true ∧ ∀ x ∈ back, p x = false := by
  induction l with
  | nil => exact absurd h (by simp)
  | cons a l ih =>
    by_cases hlater : ∃ b ∈ l, p b = true
    · obtain ⟨front, b, back, rfl, hb, hback⟩ := ih hlater
      exact ⟨a :: front, b, back, rfl, hb, hback⟩
    · obtain ⟨b, hb, hpb⟩ := h
      rcases List.mem_cons.1 hb with rfl | hb
      · exact ⟨[], b, l, rfl, hpb, fun x hx => Bool.eq_false_iff.2 fun hpx => hlater ⟨x, hx, hpx⟩⟩
      · exact absurd ⟨b, hb, hpb⟩ hlater

theorem split_concat {α : Type} {l front back : List α} {a b : α}
    (h : l ++ [a] = front ++ b :: back) :
    (b = a ∧ back = []) ∨ ∃ rest, back = rest ++ [a] ∧ l = front ++ b :: rest := by
  rcases List.eq_nil_or_concat back with rfl | ⟨rest, last, rfl⟩
  · exact .inl ⟨(List.singleton_inj.1 (List.append_inj' h rfl).2).symm, rfl⟩
  · rw [List.concat_eq_append, ← List.cons_append, ← List.append_assoc] at h
    obtain ⟨hl, hlast⟩ := List.append_inj' h rfl
    exact .inr ⟨rest, by rw [List.concat_eq_append, hlast], hl⟩

/-- Every completion has a start before it, and between any two completions there is one. -/
structure Interleaved (trail : List Happened) : Prop where
  started : ∀ front y back, trail = front ++ y :: back → y.completes = true →
    ∃ s ∈ front, s.starts = true
  apart : ∀ front x middle y back, trail = front ++ x :: (middle ++ y :: back) →
    x.completes = true → y.completes = true → ∃ s ∈ middle, s.starts = true

namespace Interleaved

variable {trail : List Happened} {y : Happened}

theorem of_concat (h : Interleaved (trail ++ [y])) : Interleaved trail := by
  refine ⟨fun front x back heq => h.started front x (back ++ [y]) (by simp [heq]),
    fun front x middle z back heq => h.apart front x middle z (back ++ [y]) (by simp [heq])⟩

theorem exists_fresh (h : Interleaved (trail ++ [y])) (hy : y.completes = true) :
    ∃ front s back, trail = front ++ s :: back ∧ s.starts = true ∧
      ∀ x ∈ back, x.completes = false := by
  obtain ⟨front, s, back, rfl, hs, hback⟩ := exists_last_of_mem (h.started trail y [] rfl hy)
  refine ⟨front, s, back, rfl, hs, fun x hx => Bool.eq_false_iff.2 fun hcompletes => ?_⟩
  obtain ⟨before, after, rfl⟩ := List.append_of_mem hx
  obtain ⟨s', hs', hstarts⟩ := h.apart (front ++ s :: before) x after y [] (by simp) hcompletes hy
  rw [hback s' (List.mem_append_right _ (List.mem_cons_of_mem _ hs'))] at hstarts
  cases hstarts

/-- There are no more completions than starts, and fewer where a start has no completion behind it. -/
theorem countP_le (h : Interleaved trail) :
    trail.countP Happened.completes ≤ trail.countP Happened.starts ∧
      ∀ front s back, trail = front ++ s :: back → s.starts = true →
        (∀ x ∈ back, x.completes = false) →
        trail.countP Happened.completes < trail.countP Happened.starts := by
  induction trail using List.reverseRecOn with
  | nil => exact ⟨Nat.le_refl _, fun front s back heq => by simp at heq⟩
  | append_singleton trail y ih =>
    obtain ⟨hle, hlt⟩ := ih h.of_concat
    simp only [List.countP_append, List.countP_singleton]
    by_cases hy : y.completes = true
    -- a completion uses up the start that had none behind it, so the strict bound pays for it
    · obtain ⟨front, s, back, heq, hs, hback⟩ := h.exists_fresh hy
      have hfresh := hlt front s back heq hs hback
      simp only [hy, if_true]
      refine ⟨by omega, fun front s back heq hs hback => ?_⟩
      rcases split_concat heq with ⟨rfl, -⟩ | ⟨rest, rfl, -⟩
      · simp only [hs, if_true]
        omega
      · have hnone := hback y (by simp)
        rw [hy] at hnone
        cases hnone
    · simp only [hy, Bool.false_eq_true, if_false]
      refine ⟨by omega, fun front s back heq hs hback => ?_⟩
      rcases split_concat heq with ⟨rfl, -⟩ | ⟨rest, rfl, htrail⟩
      · simp only [hs, if_true]
        omega
      · have := hlt front s rest htrail hs fun x hx => hback x (List.mem_append_left _ hx)
        omega

end Interleaved

/-! ## End markers of samples -/

namespace Scratch.Follows

variable {r r' : Wire.DvXplorer.Imu} {trail : List Happened}

/-- What an end marker finds is decided by the steps since the start marker, whatever other end markers
stand among them. -/
theorem closes (h : samples.Follows r trail r') {front inner back : List Happened}
    {start : Happened} {kind : CompositeKind} {time : Int} {outcome : CompositeOutcome}
    {past : List (List UInt8)}
    (htrail : trail = front ++ start :: (inner ++ ⟨.step kind .finish time outcome, past⟩ :: back))
    (hstart : start.starts = true) (hquiet : ∀ x ∈ inner, samples.Quiet x) :
    outcome.Closes (Wire.DvXplorer.fieldsOf (samples.steps inner)) := by
  subst htrail
  obtain ⟨sent, startTime, startOutcome, hwhat⟩ := Happened.exists_of_starts hstart
  obtain ⟨what, startPast⟩ := start
  obtain rfl : what = .step sent .start startTime startOutcome := hwhat
  obtain ⟨r₁, -, hrest⟩ := h.of_append
  rcases hrest.head_cases with ⟨-, -, hrest⟩ | ⟨hnot, -⟩
  · obtain ⟨r₂, hinner, rfl⟩ := hrest.outcome_eq rfl
    obtain rfl := hinner.eq_replay_of_quiet hquiet
    exact Wire.DvXplorer.Imu.closes_replay r₁ startTime time (samples.steps inner)
  · cases hnot

/-- An end marker behind a start marker completes or discards. -/
theorem closed (h : samples.Follows r trail r') {front inner back : List Happened}
    {start x : Happened} (htrail : trail = front ++ start :: (inner ++ x :: back))
    (hstart : start.starts = true) (hquiet : ∀ x ∈ inner, samples.Quiet x) (hx : x.ends = true) :
    x.completes = true ∨ x.discards = true := by
  obtain ⟨what, past⟩ := x
  obtain ⟨kind, time, outcome, rfl⟩ := Happened.exists_of_ends hx
  have hcloses := h.closes htrail hstart hquiet
  cases outcome with
  | complete event => exact .inl rfl
  | mismatch count expected => exact .inr rfl
  | pending | ignored => exact hcloses.elim

theorem completes_iff (h : samples.Follows r trail r') {front inner back : List Happened}
    {start x : Happened} (htrail : trail = front ++ start :: (inner ++ x :: back))
    (hstart : start.starts = true) (hquiet : ∀ x ∈ inner, samples.Quiet x) (hx : x.ends = true) :
    x.completes = true ↔
      Wire.DvXplorer.fieldsOf (samples.steps inner) = Wire.DvXplorer.sampleBytes := by
  obtain ⟨what, past⟩ := x
  obtain ⟨kind, time, outcome, rfl⟩ := Happened.exists_of_ends hx
  have hcloses := h.closes htrail hstart hquiet
  cases outcome with
  | complete event => exact iff_of_true rfl hcloses
  | mismatch count expected => exact iff_of_false Bool.false_ne_true hcloses.2.2
  | pending | ignored => exact hcloses.elim

/-- Where an event is completed or discarded stands an end marker, and before it a start marker with
nothing in between that starts or drops a record. -/
theorem exists_start (h : samples.Follows r trail r') (hidle : r.scratch.ignoring = true)
    {front back : List Happened} {x : Happened} (htrail : trail = front ++ x :: back)
    (hx : x.completes = true ∨ x.discards = true) : x.ends = true ∧
      ∃ before start inner, front = before ++ start :: inner ∧ start.starts = true ∧
        ∀ y ∈ inner, samples.Quiet y := by
  subst htrail
  obtain ⟨what, past⟩ := x
  have hclosed : ∃ kind step time outcome, what = .step kind step time outcome ∧
      outcome ≠ .pending ∧ outcome ≠ .ignored := by
    rcases hx with hx | hx
    · obtain ⟨kind, step, time, event, hwhat⟩ := Happened.exists_of_completes hx
      exact ⟨kind, step, time, _, hwhat, by simp, by simp⟩
    · obtain ⟨kind, step, time, count, expected, hwhat⟩ := Happened.exists_of_discards hx
      exact ⟨kind, step, time, _, hwhat, by simp, by simp⟩
  obtain ⟨kind, step, time, outcome, rfl, hpending, hignored⟩ := hclosed
  obtain ⟨r₁, -, houtcome⟩ := h.outcome_eq rfl
  obtain rfl := samples.finish_of_closed r₁ step time (houtcome ▸ hpending) (houtcome ▸ hignored)
  obtain ⟨before, start, startTime, inner, -, hopened, -⟩ := h.exists_of_finish hidle rfl hignored
  obtain ⟨hfront, ⟨sent, -, hstart⟩, hquiet⟩ := hopened
  refine ⟨rfl, before, start, inner, hfront, ?_, hquiet⟩
  simp [Happened.starts, hstart]

/-- A completion behind another end marker, without a start marker in between, spends a sample twice. -/
theorem spentTwice (h : samples.Follows r trail r') (hidle : r.scratch.ignoring = true)
    {front middle back : List Happened} {x y : Happened}
    (htrail : trail = front ++ x :: (middle ++ y :: back)) (hx : x.ends = true)
    (hy : y.completes = true) (hnone : ¬ ∃ s ∈ middle, s.starts = true) : SpentTwice trail := by
  have hsplit : trail = (front ++ x :: middle) ++ y :: back := by
    rw [htrail, List.append_assoc, List.cons_append]
  obtain ⟨hends, before, start, inner, hfront, hstart, hquiet⟩ :=
    h.exists_start hidle hsplit (.inl hy)
  have hxstart : x.starts = false := by
    obtain ⟨kind, time, outcome, hwhat⟩ := Happened.exists_of_ends hx
    simp [Happened.starts, hwhat]
  -- the newest start marker stands before both end markers
  have hmem : x ∈ inner := by
    rcases List.append_eq_append_iff.1 hfront with ⟨rest, -, heq⟩ | ⟨rest, -, heq⟩
    · have hlater : start ∈ x :: middle := by simp [heq]
      rcases List.mem_cons.1 hlater with rfl | hlater
      · rw [hxstart] at hstart
        cases hstart
      · exact absurd ⟨start, hlater, hstart⟩ hnone
    · cases rest with
      | nil =>
        obtain ⟨rfl, -⟩ := List.cons.inj heq
        rw [hxstart] at hstart
        cases hstart
      | cons s rest =>
        rw [(List.cons.inj heq).2]
        simp
  have hwhole : trail = before ++ start :: (inner ++ y :: back) := by
    rw [hsplit, hfront, List.append_assoc, List.cons_append]
  exact ⟨before, start, inner, y, back, hwhole, hstart, hends, hquiet, ⟨x, hmem, hx⟩,
    (h.completes_iff hwhole hstart hquiet hends).1 hy⟩

theorem not_spentTwice (h : samples.Follows r trail r') (hsampled : SampledOnce trail) :
    ¬ SpentTwice trail := by
  rintro ⟨front, start, inner, finish, back, htrail, hstart, hfinish, hquiet, ⟨x, hx, hends⟩,
    hfields⟩
  obtain ⟨first, last, rfl⟩ := List.append_of_mem hx
  have hcompletes : finish.completes = true :=
    (h.completes_iff htrail hstart hquiet hfinish).2 hfields
  have hbefore : trail = front ++ start :: (first ++ x :: (last ++ finish :: back)) := by
    rw [htrail, List.append_assoc, List.cons_append]
  have hsplit : trail = (front ++ start :: first) ++ x :: (last ++ finish :: back) := by
    rw [hbefore, List.append_assoc, List.cons_append]
  -- whatever the first end marker made of the sample, the second one wants a start marker in between
  have hstarted : ∃ s ∈ last, s.starts = true := by
    rcases h.closed hbefore hstart (fun y hy => hquiet y (List.mem_append_left _ hy)) hends with
      hx | hx
    · exact hsampled.once _ x last finish back hsplit hx hcompletes
    · exact hsampled.discarded _ x last finish back hsplit hx hcompletes
  obtain ⟨s, hs, hstarts⟩ := hstarted
  obtain ⟨kind, time, outcome, hwhat⟩ := Happened.exists_of_starts hstarts
  have hnot := hquiet s (List.mem_append_right _ (List.mem_cons_of_mem _ hs))
  rw [Quiet, hwhat] at hnot
  exact hnot rfl rfl

theorem sampledOnce_of_not_spentTwice (h : samples.Follows r trail r')
    (hidle : r.scratch.ignoring = true) (hno : ¬ SpentTwice trail) : SampledOnce trail := by
  have honce : ∀ front x middle y back, trail = front ++ x :: (middle ++ y :: back) →
      x.ends = true → y.completes = true → ∃ s ∈ middle, s.starts = true :=
    fun front x middle y back htrail hx hy =>
      by_contra fun hnone => hno (h.spentTwice hidle htrail hx hy hnone)
  have hinterleaved : Interleaved trail := by
    refine ⟨fun front y back htrail hy => ?_, fun front x middle y back htrail hx hy => ?_⟩
    · obtain ⟨-, before, start, inner, rfl, hstart, -⟩ := h.exists_start hidle htrail (.inl hy)
      exact ⟨start, by simp, hstart⟩
    · exact honce front x middle y back htrail (h.exists_start hidle htrail (.inl hx)).1 hy
  exact {
    count_le := hinterleaved.countP_le.1
    once := hinterleaved.apart
    discarded := fun front x middle y back htrail hx hy =>
      honce front x middle y back htrail (h.exists_start hidle htrail (.inr hx)).1 hy }

/-- Samples are completed at most once for each start marker, and never after they were discarded, exactly
if no end marker but the first one since a start marker finds all fields. -/
theorem sampledOnce_iff (h : samples.Follows r trail r') (hidle : r.scratch.ignoring = true) :
    SampledOnce trail ↔ ¬ SpentTwice trail :=
  ⟨h.not_spentTwice, h.sampledOnce_of_not_spentTwice hidle⟩

end Scratch.Follows

/-! ## Units and events -/

namespace Decoder

variable {dev : Device} {d : Decoder dev}

theorem length_asked_le (code : Code) (kind : CompositeKind) (past : List (List UInt8))
    (done : Bool) : (d.asked code kind.eventKind).length ≤
      ((d.happenings done code).map (⟨·, past⟩)).countP Happened.completes := by
  cases hasked : d.asked code kind.eventKind with
  | nil => exact Nat.zero_le _
  | cons event rest =>
    obtain ⟨sent, step, rfl, houtcome⟩ := mem_asked_composite (hasked ▸ List.mem_cons_self)
    rw [← hasked]
    simp only [asked, happenings, houtcome]
    exact length_only_le ..

theorem length_additions_le (past : List (List UInt8)) (done : Bool) (codes : List Code)
    (kind : CompositeKind) : (additions past codes d kind.eventKind).length ≤
      (trail past done codes d).countP Happened.completes := by
  induction codes generalizing d with
  | nil => exact Nat.le_refl _
  | cons code codes ih =>
    rw [additions, trail, List.countP_append]
    have hfirst := d.length_asked_le code kind past done
    cases (apply code d).result with
    | error e => exact Nat.zero_le _
    | ok forced =>
      rw [List.length_append, List.length_map]
      exact Nat.add_le_add hfirst ih

end Decoder

/-- A run adds no more composite events of a kind than are completed on its trail. -/
theorem Ledger.length_added_le {dev : Device} (b : Ledger dev) (moves : List Move)
    (kind : CompositeKind) : ((b.run moves).added kind.eventKind).length ≤
      (b.added kind.eventKind).length + (b.trail moves).countP Happened.completes := by
  induction moves generalizing b with
  | nil => exact Nat.le_refl _
  | cons m moves ih =>
    cases m with
    | rest => exact ih _
    | unit unit =>
      refine Nat.le_trans (ih (b.advance (.unit unit))) ?_
      have hunit := Decoder.length_additions_le (b.units ++ [unit])
        (b.decoder.make (.unit unit)).result.isOk (dev.classify b.decoder.device unit).codes kind
        (d := { b.decoder with device := (dev.classify b.decoder.device unit).state })
      change (b.added kind.eventKind ++ b.addedBy unit kind.eventKind).length + _ ≤ _ +
        (b.trailOf unit ++ _).countP Happened.completes
      rw [List.length_append, List.countP_append, Nat.add_assoc]
      exact Nat.add_le_add_left (Nat.add_le_add_right hunit _) _

namespace Wire.DvXplorer

theorem codes_of_startsSample {g : Geometry} {s : State} {unit : List UInt8}
    (h : startsSample unit = true) : (classify g s unit).codes = [.composite .imu6 .start] := by
  match unit with
  | low :: high :: _ =>
    have hword : word low high = 5 := of_decide_eq_true h
    simp only [classify, hword]
    rfl
  | [] | [_] => cases h

end Wire.DvXplorer

namespace Ledger

variable {g : Geometry}

theorem countP_starts_trailOf (b : Ledger (Wire.DvXplorer.device g)) (unit : List UInt8) :
    (b.trailOf unit).countP Happened.starts =
      [unit].countP Wire.DvXplorer.startsSample := by
  rw [List.countP_singleton]
  by_cases hunit : Wire.DvXplorer.startsSample unit = true
  · rw [if_pos hunit, trailOf]
    simp only [Wire.DvXplorer.device, Wire.DvXplorer.codes_of_startsSample hunit]
    rfl
  · rw [if_neg hunit, List.countP_eq_zero]
    refine Decoder.forall_mem_trail (P := fun x => ¬ x.starts = true)
      fun code hcode d what hwhat hstarts => hunit ?_
    obtain ⟨kind, time, outcome, rfl⟩ := Happened.exists_of_starts hstarts
    cases code with
    | composite sent step =>
      cases List.mem_singleton.1 hwhat
      exact Wire.DvXplorer.startsSample_of_mem hcode
    | tick | wrap | reset | pixel | group | special =>
      obtain ⟨_, -, heq⟩ := List.mem_map.1 hwhat
      cases heq

theorem countP_starts_trail (b : Ledger (Wire.DvXplorer.device g)) (moves : List Move) :
    (b.trail moves).countP Happened.starts =
      (moves.filterMap Move.unit?).countP Wire.DvXplorer.startsSample := by
  induction moves generalizing b with
  | nil => rfl
  | cons m moves ih =>
    cases m with
    | rest => exact ih _
    | unit unit =>
      change (b.trailOf unit ++ _).countP _ = ([unit] ++ moves.filterMap Move.unit?).countP _
      rw [List.countP_append, List.countP_append, countP_starts_trailOf]
      exact congrArg _ (ih _)

end Ledger

/-! ## Sessions -/

/-- What the trail of a DVXplorer tells of its samples: an end marker counts the fields since the start
marker, whether there were other end markers between or not. Samples are completed at most once for each
start marker, and never after they were discarded, exactly if no end marker but the first one since a start
marker finds all fields. -/
structure Ledger.TellsSamples {g : Geometry} (b : Ledger (Wire.DvXplorer.device g))
    (trail : List Happened) : Prop where
  starts_eq : trail.countP Happened.starts = b.units.countP Wire.DvXplorer.startsSample
  added_le : (b.added .imu6).length ≤ trail.countP Happened.completes
  closes : ∀ front start inner kind time outcome past back,
    trail = front ++ start :: (inner ++ ⟨.step kind .finish time outcome, past⟩ :: back) →
    start.starts = true → (∀ x ∈ inner, Scratch.samples.Quiet x) →
    outcome.Closes (Wire.DvXplorer.fieldsOf (Scratch.samples.steps inner))
  stems : ∀ front x back, trail = front ++ x :: back → x.completes = true ∨ x.discards = true →
    x.ends = true ∧ ∃ before start inner, front = before ++ start :: inner ∧ start.starts = true ∧
      ∀ y ∈ inner, Scratch.samples.Quiet y
  once_iff : SampledOnce trail ↔ ¬ SpentTwice trail

theorem Ledger.tellsSamples_run {g : Geometry} {d : Decoder (Wire.DvXplorer.device g)}
    (hd : d.device = (Wire.DvXplorer.device g).initial) (moves : List Move) :
    (Ledger.run { decoder := d } moves).TellsSamples (Ledger.trail { decoder := d } moves) := by
  have hidle : (Scratch.samplesKept g).record d.device = (({} : Wire.DvXplorer.State)).imu := by
    rw [hd]
    rfl
  have hfollows := (Scratch.samplesKept g).follows_trail { decoder := d } moves
  rw [hidle] at hfollows
  have hunits : (Ledger.run { decoder := d } moves).units = moves.filterMap Move.unit? :=
    units_run _ moves
  have hadded := Ledger.length_added_le { decoder := d } moves .imu6
  rw [show ({ decoder := d } : Ledger (Wire.DvXplorer.device g)).added CompositeKind.imu6.eventKind =
    [] from rfl, List.length_nil, Nat.zero_add] at hadded
  exact {
    starts_eq := by rw [hunits]; exact countP_starts_trail _ moves
    added_le := hadded
    closes := fun _ _ _ _ _ _ _ _ htrail => hfollows.closes htrail
    stems := fun _ _ _ htrail => hfollows.exists_start rfl htrail
    once_iff := hfollows.sampledOnce_iff rfl }

/-- In every session of a DVXplorer, whatever its units are and whether calls fail or not, the trail tells
when samples are completed more than once or after they were discarded. -/
theorem session_tellsSamples {g : Geometry} {settings : Settings}
    {d d' : Decoder (Wire.DvXplorer.device g)} {calls : List Call} {x x' : Exchange}
    {log : List Occurrence} {results : List (Except DecodeError Unit)}
    (hstart : Decoder.start (Wire.DvXplorer.device g) settings = .ok d)
    (h : Execution (session Decoder.call calls d) x log (d', results) x') :
    ∃ b moves, Execution (session Ledger.call calls { decoder := d }) x log (b, results) x' ∧
      b.decoder = d' ∧ Ledger.Course { decoder := d } moves (handovers (stepsOf log)) b ∧
      b.TellsSamples (Ledger.trail { decoder := d } moves) := by
  obtain ⟨b, hb, hd⟩ := Ledger.exists_execution { decoder := d } h
  obtain ⟨moves, hcourse, -⟩ := Ledger.trace_session hb.trace
  have htells := Ledger.tellsSamples_run (Decoder.start_ok hstart).device_eq moves
  refine ⟨b, moves, hb, hd, hcourse, ?_⟩
  rw [hcourse.end_eq]
  exact ⟨htells.starts_eq, htells.added_le, htells.closes, htells.stems, htells.once_iff⟩

open Wire.DvXplorer.Encode in
/-- A sample that is sent once, and a second end marker a tick after the first. -/
def repeatedEnd : List Call :=
  [.decode (tick 100 ++ imuStart ++ imuConfig 7 0 4 ++
      ([0x40, 0, 0x20, 0, 0, 0x10, 2, 0, 1, 0, 0, 1, 3, 0].map imuByte).flatten ++ imuEnd),
    .decode (tick 101 ++ imuEnd), .flush]

theorem session_tellsSamples_repeatedEnd :
    ∃ (d d' : Decoder (Wire.DvXplorer.device Wire.DvXplorer.fullArray)) (log : List Occurrence)
      (results : List (Except DecodeError Unit)) (x' : Exchange),
      Decoder.start (Wire.DvXplorer.device Wire.DvXplorer.fullArray) {} = .ok d ∧
      Execution (session Decoder.call repeatedEnd d) (.start 3) log (d', results) x' ∧
      ∃ b moves, Execution (session Ledger.call repeatedEnd { decoder := d }) (.start 3) log
          (b, results) x' ∧ b.decoder = d' ∧
        Ledger.Course { decoder := d } moves (handovers (stepsOf log)) b ∧
        b.TellsSamples (Ledger.trail { decoder := d } moves) := by
  have hrun : undisturbed (Wire.DvXplorer.device Wire.DvXplorer.fullArray) {} repeatedEnd
      (.start 3) := by decide +kernel
  obtain ⟨d, d', results, log, x', hd, h, -⟩ := exists_of_undisturbed hrun
  exact ⟨d, d', log, results, x', hd, h, session_tellsSamples hd h⟩

/-- A sample that is completed again by a second end marker: two samples come of one start marker. -/
theorem not_sampledOnce_repeatedEnd :
    ∃ (d d' : Decoder (Wire.DvXplorer.device Wire.DvXplorer.fullArray)) (log : List Occurrence)
      (results : List (Except DecodeError Unit)) (x' : Exchange)
      (b : Ledger (Wire.DvXplorer.device Wire.DvXplorer.fullArray)) (moves : List Move),
      Decoder.start (Wire.DvXplorer.device Wire.DvXplorer.fullArray) {} = .ok d ∧
      Execution (session Decoder.call repeatedEnd d) (.start 3) log (d', results) x' ∧
      (∀ r ∈ results, r.isOk) ∧
      Execution (session Ledger.call repeatedEnd { decoder := d }) (.start 3) log (b, results) x' ∧
      b.decoder = d' ∧ Ledger.Whole d repeatedEnd log b moves ∧
      b.units.countP Wire.DvXplorer.startsSample = 1 ∧ 1 < (b.added .imu6).length ∧
      ¬ SampledOnce (Ledger.trail { decoder := d } moves) := by
  have hrun : comesTo (Wire.DvXplorer.device Wire.DvXplorer.fullArray) {} repeatedEnd (.start 3)
      fun steps results => results.all Except.isOk && steps.all Step.goesOn &&
        1 < (sealedEvents ((handovers steps).map Handover.sealed) .imu6).length := by decide +kernel
  obtain ⟨d, d', results, steps, x', hd, h, htest⟩ := exists_of_comesTo hrun
  simp only [Bool.and_eq_true, decide_eq_true_eq] at htest
  obtain ⟨⟨hok, hsteady⟩, hsealed⟩ := htest
  obtain ⟨b, moves, hb, hend, hwhole⟩ := Ledger.exists_whole hd h (List.all_eq_true.1 hok)
    (by rw [stepsOf_acted]; exact List.all_eq_true.1 hsteady)
  have hstarts : b.units.countP Wire.DvXplorer.startsSample = 1 := by
    rw [hwhole.units_eq]
    decide +kernel
  have hadded : 1 < (b.added .imu6).length := by
    have hevents := congrArg List.length (hwhole.conserved.events .imu6)
    rw [List.length_append, List.length_map, hwhole.sealed_eq, stepsOf_acted] at hevents
    omega
  refine ⟨d, d', _, results, x', b, moves, hd, h, List.all_eq_true.1 hok, hb, hend, hwhole,
    hstarts, hadded, fun honce => ?_⟩
  have htells := Ledger.tellsSamples_run (Decoder.start_ok hd).device_eq moves
  have hle : (b.added .imu6).length ≤ b.units.countP Wire.DvXplorer.startsSample := by
    rw [hwhole.end_eq]
    exact Nat.le_trans htells.added_le (htells.starts_eq ▸ honce.count_le)
  omega

end EventCamera
