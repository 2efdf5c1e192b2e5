import EventCamera.Collector
import EventCamera.Composite

/-! # Scratch records

What happens to the composites of a device, told apart from the device: the steps of the composites, and
the sealings that drop them. A scratch record follows its trail of happenings. Where it is open, the
trail has a start marker, and all that counts of the record was put in after it. -/

namespace EventCamera

/-- Something that happens to the composites of a device. -/
inductive Happening where
  /-- A step of a composite, the device time of the step, and what became of it. -/
  | step (kind : CompositeKind) (step : CompositeStep) (time : Int) (outcome : CompositeOutcome)
  /-- A reset or the end of an epoch, and whether the sealing that it forces was done. -/
  | forced (cause : Forced) (done : Bool)

/-- A happening, and the units decoded up to the one in which it happens. -/
structure Happened where
  what : Happening
  past : List (List UInt8)

/-- A way to put composites together: the steps that a record takes, the events that come of it, what the
steps make of it, and what of it matters. -/
structure Scratch where
  Record : Type
  takes : CompositeKind → Bool
  makes : CompositeEvent → Bool
  ignoring : Record → Bool
  apply : Record → CompositeStep → Int → Record × CompositeOutcome
  drop : Record → Record
  /-- The record without anything that was sent for a composite. -/
  renew : Record → Record
  /-- Two records that no step to come can tell apart. -/
  Alike : Record → Record → Prop
  ignoring_drop : ∀ r, ignoring (drop r) = true
  apply_ignoring : ∀ r step time, ignoring r = true → step ≠ .start →
    apply r step time = (r, .ignored)
  apply_start : ∀ r time, ignoring (apply r .start time).1 = false ∧
    (apply r .start time).2 = .pending ∧
    Alike (apply r .start time).1 (apply (renew r) .start time).1
  finish_of_closed : ∀ r step time, (apply r step time).2 ≠ .pending →
    (apply r step time).2 ≠ .ignored → step = .finish
  alike_apply : ∀ r r' step time, Alike r r' →
    Alike (apply r step time).1 (apply r' step time).1 ∧
      (apply r step time).2 = (apply r' step time).2

namespace Scratch

variable (S : Scratch)

def step? (h : Happened) : Option (CompositeStep × Int) :=
  match h.what with
  | .step kind step time _ => if S.takes kind then some (step, time) else none
  | .forced .. => none

/-- The steps of a trail that the record takes. -/
def steps (trail : List Happened) : List (CompositeStep × Int) :=
  trail.filterMap S.step?

/-- What steps make of a record, one after the other. -/
def replay (r : S.Record) (steps : List (CompositeStep × Int)) : S.Record :=
  steps.foldl (fun r s => (S.apply r s.1 s.2).1) r

/-- A happening that neither starts a record nor drops it. -/
def Quiet (h : Happened) : Prop :=
  match h.what with
  | .step kind step _ _ => S.takes kind = true → step ≠ .start
  | .forced _ done => done = false

/-- A record goes along a trail, whose outcomes are its own. -/
inductive Follows : S.Record → List Happened → S.Record → Prop where
  | nil (r) : Follows r [] r
  | taken {r kind step time past trail r'} : S.takes kind = true →
      Follows (S.apply r step time).1 trail r' →
      Follows r (⟨.step kind step time (S.apply r step time).2, past⟩ :: trail) r'
  | passed {r kind step time outcome past trail r'} : S.takes kind = false →
      (∀ event, outcome = .complete event → S.makes event = false) → Follows r trail r' →
      Follows r (⟨.step kind step time outcome, past⟩ :: trail) r'
  | dropped {r cause past trail r'} : Follows (S.drop r) trail r' →
      Follows r (⟨.forced cause true, past⟩ :: trail) r'
  | missed {r cause past trail r'} : Follows r trail r' →
      Follows r (⟨.forced cause false, past⟩ :: trail) r'

/-- A trail leads up to a start marker, and on from it with nothing that starts or drops a record. -/
structure OpenedBy (trail : List Happened) (front : List Happened) (start : Happened)
    (time : Int) (inner : List Happened) : Prop where
  trail_eq : trail = front ++ start :: inner
  start_eq : ∃ kind, S.takes kind = true ∧ start.what = .step kind .start time .pending
  quiet : ∀ h ∈ inner, S.Quiet h

variable {S} {r r' r'' : S.Record} {trail later : List Happened}

theorem replay_cons (r : S.Record) (s : CompositeStep × Int) (steps : List (CompositeStep × Int)) :
    S.replay r (s :: steps) = S.replay (S.apply r s.1 s.2).1 steps := rfl

theorem steps_taken {kind : CompositeKind} (h : S.takes kind = true) (step : CompositeStep)
    (time : Int) (outcome : CompositeOutcome) (past : List (List UInt8)) (rest : List Happened) :
    S.steps (⟨.step kind step time outcome, past⟩ :: rest) = (step, time) :: S.steps rest := by
  simp [steps, step?, h]

theorem steps_passed {kind : CompositeKind} (h : S.takes kind = false) (step : CompositeStep)
    (time : Int) (outcome : CompositeOutcome) (past : List (List UInt8)) (rest : List Happened) :
    S.steps (⟨.step kind step time outcome, past⟩ :: rest) = S.steps rest := by
  simp [steps, step?, h]

theorem steps_forced (cause : Forced) (done : Bool) (past : List (List UInt8))
    (rest : List Happened) : S.steps (⟨.forced cause done, past⟩ :: rest) = S.steps rest :=
  rfl

theorem replay_alike (h : S.Alike r r') (steps : List (CompositeStep × Int)) :
    S.Alike (S.replay r steps) (S.replay r' steps) := by
  induction steps generalizing r r' with
  | nil => exact h
  | cons s steps ih => exact ih (S.alike_apply r r' s.1 s.2 h).1

namespace Follows

theorem head_cases {kind : CompositeKind} {step : CompositeStep} {time : Int}
    {outcome : CompositeOutcome} {past : List (List UInt8)}
    (h : S.Follows r (⟨.step kind step time outcome, past⟩ :: trail) r') :
    (S.takes kind = true ∧ outcome = (S.apply r step time).2 ∧
        S.Follows (S.apply r step time).1 trail r') ∨
      (S.takes kind = false ∧ (∀ event, outcome = .complete event → S.makes event = false) ∧
        S.Follows r trail r') := by
  cases h with
  | taken htakes h => exact .inl ⟨htakes, rfl, h⟩
  | passed htakes hmakes h => exact .inr ⟨htakes, hmakes, h⟩

theorem append (h : S.Follows r trail r') (hlater : S.Follows r' later r'') :
    S.Follows r (trail ++ later) r'' := by
  induction h with
  | nil => exact hlater
  | taken htakes _ ih => exact .taken htakes (ih hlater)
  | passed htakes hmakes _ ih => exact .passed htakes hmakes (ih hlater)
  | dropped _ ih => exact .dropped (ih hlater)
  | missed _ ih => exact .missed (ih hlater)

theorem of_append (h : S.Follows r (trail ++ later) r'') :
    ∃ r', S.Follows r trail r' ∧ S.Follows r' later r'' := by
  induction trail generalizing r with
  | nil => exact ⟨r, .nil r, h⟩
  | cons x trail ih =>
    cases h with
    | taken htakes h =>
      obtain ⟨r', hfirst, hlater⟩ := ih h
      exact ⟨r', .taken htakes hfirst, hlater⟩
    | passed htakes hmakes h =>
      obtain ⟨r', hfirst, hlater⟩ := ih h
      exact ⟨r', .passed htakes hmakes hfirst, hlater⟩
    | dropped h =>
      obtain ⟨r', hfirst, hlater⟩ := ih h
      exact ⟨r', .dropped hfirst, hlater⟩
    | missed h =>
      obtain ⟨r', hfirst, hlater⟩ := ih h
      exact ⟨r', .missed hfirst, hlater⟩

/-- On a quiet trail a record takes in the steps of the trail, and nothing else happens to it. -/
theorem eq_replay_of_quiet (h : S.Follows r trail r') (hquiet : ∀ x ∈ trail, S.Quiet x) :
    r' = S.replay r (S.steps trail) := by
  induction h with
  | nil r => rfl
  | taken htakes _ ih =>
    rw [steps_taken htakes, replay_cons]
    exact ih (List.forall_mem_cons.1 hquiet).2
  | passed htakes _ _ ih =>
    rw [steps_passed htakes]
    exact ih (List.forall_mem_cons.1 hquiet).2
  | dropped => cases (List.forall_mem_cons.1 hquiet).1
  | missed _ ih =>
    rw [steps_forced]
    exact ih (List.forall_mem_cons.1 hquiet).2

/-- Where a record was started does not depend on what came before. -/
theorem exists_behind {x : Happened}
    (h : ∃ front start time inner r₀, S.OpenedBy trail front start time inner ∧
      S.Follows (S.apply r₀ .start time).1 inner r') :
    ∃ front start time inner r₀, S.OpenedBy (x :: trail) front start time inner ∧
      S.Follows (S.apply r₀ .start time).1 inner r' := by
  obtain ⟨front, start, time, inner, r₀, ⟨htrail, hstart, hquiet⟩, hinner⟩ := h
  exact ⟨x :: front, start, time, inner, r₀, ⟨by rw [htrail]; rfl, hstart, hquiet⟩, hinner⟩

/-- A record that is open at the end of a trail was open all along, or it was started on the trail, and
not dropped since. -/
theorem open_cases (h : S.Follows r trail r') (hopen : S.ignoring r' = false) :
    (S.ignoring r = false ∧ ∀ x ∈ trail, S.Quiet x) ∨
      ∃ front start time inner r₀, S.OpenedBy trail front start time inner ∧
        S.Follows (S.apply r₀ .start time).1 inner r' := by
  -- from the front, so that a start marker counts only if there is none behind it
  induction h with
  | nil r => exact .inl ⟨hopen, List.forall_mem_nil _⟩
  | @taken r kind step time past trail r' htakes hrest ih =>
    rcases ih hopen with ⟨hr, hquiet⟩ | hlater
    · by_cases hstep : step = .start
      · subst hstep
        refine .inr ⟨[], _, time, trail, r, ⟨rfl, ⟨kind, htakes, ?_⟩, hquiet⟩, hrest⟩
        rw [(S.apply_start r time).2.1]
      · refine .inl ⟨?_, List.forall_mem_cons.2 ⟨fun _ => hstep, hquiet⟩⟩
        cases hignoring : S.ignoring r with
        | false => rfl
        | true =>
          rw [S.apply_ignoring r step time hignoring hstep] at hr
          exact hignoring.symm.trans hr
    · exact .inr (exists_behind hlater)
  | passed htakes _ _ ih =>
    rcases ih hopen with ⟨hr, hquiet⟩ | hlater
    · refine .inl ⟨hr, List.forall_mem_cons.2 ⟨fun h => ?_, hquiet⟩⟩
      rw [htakes] at h
      cases h
    · exact .inr (exists_behind hlater)
  | @dropped r _ _ _ _ _ ih =>
    rcases ih hopen with ⟨hr, -⟩ | hlater
    · rw [S.ignoring_drop] at hr
      cases hr
    · exact .inr (exists_behind hlater)
  | missed _ ih =>
    rcases ih hopen with ⟨hr, hquiet⟩ | hlater
    · exact .inl ⟨hr, List.forall_mem_cons.2 ⟨rfl, hquiet⟩⟩
    · exact .inr (exists_behind hlater)

/-- A record that is open now and ignored its steps at first was started on the way. It is like one that
was new at its start and was given the steps since. -/
theorem exists_openedBy (h : S.Follows r trail r') (hr : S.ignoring r = true)
    (hopen : S.ignoring r' = false) :
    ∃ front start time inner r₀, S.OpenedBy trail front start time inner ∧
      S.Alike r' (S.replay (S.renew r₀) ((.start, time) :: S.steps inner)) := by
  rcases h.open_cases hopen with ⟨hnot, -⟩ | ⟨front, start, time, inner, r₀, hopened, hinner⟩
  · rw [hr] at hnot
    cases hnot
  · rw [hinner.eq_replay_of_quiet hopened.quiet]
    exact ⟨front, start, time, inner, r₀, hopened, replay_alike (S.apply_start r₀ time).2.2 _⟩

/-- A step along a trail has the outcome that the record gives it. -/
theorem outcome_eq {front back : List Happened} {kind : CompositeKind} {step : CompositeStep}
    {time : Int} {outcome : CompositeOutcome} {past : List (List UInt8)}
    (h : S.Follows r (front ++ ⟨.step kind step time outcome, past⟩ :: back) r'')
    (htakes : S.takes kind = true) :
    ∃ r', S.Follows r front r' ∧ outcome = (S.apply r' step time).2 := by
  obtain ⟨r', hfront, hrest⟩ := h.of_append
  refine ⟨r', hfront, ?_⟩
  rcases hrest.head_cases with ⟨-, houtcome, -⟩ | ⟨hnot, -⟩
  · exact houtcome
  · rw [htakes] at hnot
    cases hnot

/-- What an end marker comes to, unless it is ignored, is what it comes to after the steps since the start
marker, on a record that was new there. -/
theorem exists_of_finish {front back : List Happened} {kind : CompositeKind} {time : Int}
    {outcome : CompositeOutcome} {past : List (List UInt8)}
    (h : S.Follows r (front ++ ⟨.step kind .finish time outcome, past⟩ :: back) r'')
    (hr : S.ignoring r = true) (htakes : S.takes kind = true) (houtcome : outcome ≠ .ignored) :
    ∃ before start startTime inner r₀, S.OpenedBy front before start startTime inner ∧
      outcome = (S.apply (S.replay (S.renew r₀) ((.start, startTime) :: S.steps inner))
        .finish time).2 := by
  obtain ⟨r', hfront, rfl⟩ := h.outcome_eq htakes
  have hopen : S.ignoring r' = false := by
    cases hignoring : S.ignoring r' with
    | false => rfl
    | true =>
      rw [S.apply_ignoring r' .finish time hignoring (by simp)] at houtcome
      exact absurd rfl houtcome
  obtain ⟨before, start, startTime, inner, r₀, hopened, halike⟩ := hfront.exists_openedBy hr hopen
  exact ⟨before, start, startTime, inner, r₀, hopened, (S.alike_apply _ _ _ _ halike).2⟩

end Follows

end Scratch

end EventCamera
