import EventCamera.Collector
import EventCamera.Proofs.Execution

/-! # Handing on containers

Each sealed container is handed to the queue once, in the order of sealing. The queue takes it or
gives it back, and the collector counts what became of it. -/

namespace EventCamera

/-- A sealed container on its way to the consumer. -/
inductive Sealed where
  | data (container : Container)
  | reset (container : Container)

def Sealed.container : Sealed → Container
  | .data c | .reset c => c

def Sealed.isReset : Sealed → Bool
  | .data _ => false
  | .reset _ => true

/-- A container that was handed to the queue, and whether the queue took it. -/
structure Handover where
  sealed : Sealed
  accepted : Bool

def Handover.outcome (h : Handover) : Outcome :=
  if h.accepted then .published
  else if h.sealed.isReset then .resetAbandoned
  else .dropped

/-- The handover of a step, if it is one. -/
def Step.handover? : Step → Option Handover
  | ⟨.offer c, accepted⟩ => some ⟨.data c, accepted⟩
  | ⟨.deliver c, accepted⟩ => some ⟨.reset c, accepted⟩
  | _ => none

/-- The handovers among some steps. -/
def handovers (steps : List Step) : List Handover :=
  steps.filterMap Step.handover?

@[simp] theorem handovers_nil : handovers [] = [] := rfl

@[simp] theorem handovers_append (before after : List Step) :
    handovers (before ++ after) = handovers before ++ handovers after :=
  List.filterMap_append

theorem handovers_singleton_of_none {s : Step} (h : s.handover? = none) : handovers [s] = [] := by
  simp only [handovers, List.filterMap_cons, h, List.filterMap_nil]

theorem handovers_singleton_of_some {s : Step} {o : Handover} (h : s.handover? = some o) :
    handovers [s] = [o] := by
  simp only [handovers, List.filterMap_cons, h, List.filterMap_nil]

/-- A step that hands nothing over and is taken on a condition comes before the rest. -/
theorem Trace.of_ite {α : Type} {c : Prop} [Decidable c] {action : Action} {p : Producer α}
    {steps : List Step} {result : α}
    (hnone : ∀ answer, Step.handover? ⟨action, answer⟩ = none)
    (h : Trace (if c then Producer.perform action >>= fun _ => p else p) steps result) :
    ∃ before rest, steps = before ++ rest ∧ handovers before = [] ∧ Trace p rest result := by
  split at h
  · cases h with
    | @act _ _ answer rest _ h =>
      exact ⟨[⟨action, answer⟩], rest, rfl, handovers_singleton_of_none (hnone answer), h⟩
  · exact ⟨[], steps, rfl, rfl, h⟩

/-! ## The queue -/

/-- The containers that the queue took. -/
def pushed (log : List Occurrence) : List Container :=
  ((handovers (stepsOf log)).filter Handover.accepted).map (·.sealed.container)

def takenFrom (log : List Occurrence) : List Container :=
  log.filterMap fun
    | .taken c => some c
    | _ => none

theorem pushed_cons (o : Occurrence) (log : List Occurrence) :
    pushed (o :: log) = pushed [o] ++ pushed log := by
  simp only [pushed, stepsOf, ← List.map_append, ← List.filter_append, ← handovers_append,
    ← List.filterMap_append, List.singleton_append]

theorem takenFrom_cons (o : Occurrence) (log : List Occurrence) :
    takenFrom (o :: log) = takenFrom [o] ++ takenFrom log := by
  simp only [takenFrom, ← List.filterMap_append, List.singleton_append]

/-- The queue grows by what it took, and by nothing else. -/
theorem Exchange.perform_items {x x' : Exchange} {action : Action} {answer : action.Answer}
    (h : x.perform action = some (answer, x')) :
    x'.queue.items = x.queue.items ++ pushed [.acted ⟨action, answer⟩] := by
  cases action with
  | offer c =>
    simp only [perform, offer] at h
    split at h <;> cases h
    · exact (List.append_nil _).symm
    · rfl
  | deliver c =>
    simp only [perform, deliver] at h
    split at h <;> rename_i hd
    · cases h
      split at hd
      · cases hd
        rfl
      · split at hd <;> cases hd
    · cases h
      split at hd
      · cases hd
      · split at hd <;> cases hd
        exact (List.append_nil _).symm
    · cases h
  | isRunning | level | report | stop | announceEnd | close =>
    cases h
    exact (List.append_nil _).symm

theorem Exchange.Meanwhile.items {x x' : Exchange} {o : Occurrence} (h : x.Meanwhile o x') :
    x.queue.items = takenFrom [o] ++ x'.queue.items ∧ pushed [o] = [] := by
  cases h with
  | take h =>
    refine ⟨?_, rfl⟩
    simp only [take?, Queue.pop?] at h
    split at h
    · cases h
    · rename_i hi
      cases h
      exact hi
  | switch | close => exact ⟨rfl, rfl⟩

/-- Containers come out of the queue in the order in which they went in, and none is lost in
it. -/
theorem Execution.items_append_pushed {α : Type} {p : Producer α} {x x' : Exchange}
    {log : List Occurrence} {result : α} (h : Execution p x log result x') :
    x.queue.items ++ pushed log = takenFrom log ++ x'.queue.items := by
  induction h with
  | done => exact List.append_nil _
  | act h _ ih =>
    rw [pushed_cons, ← List.append_assoc, ← Exchange.perform_items h, ih]
    rfl
  | @meanwhile _ _ o _ log _ _ h _ ih =>
    obtain ⟨hi, hp⟩ := h.items
    rw [pushed_cons, takenFrom_cons, hp, List.nil_append, hi, List.append_assoc, ih,
      List.append_assoc]

/-! ## Sealing -/

/-- What a sealing hands on: the events, if there are any, and then the reset, if there is one. -/
def Sealing.handedOn (s : Sealing) : List Sealed :=
  (if s.data.isEmpty then [] else [.data s.data]) ++ s.reset?.toList.map .reset

def CommitTotals.count (t : CommitTotals) (hs : List Handover) : CommitTotals :=
  hs.foldl (fun t h => t.record h.outcome) t

@[simp] theorem CommitTotals.count_append (t : CommitTotals) (before after : List Handover) :
    t.count (before ++ after) = (t.count before).count after :=
  List.foldl_append

/-- The outcome of handing on some containers is that of the last one. -/
def outcomeOf (hs : List Handover) : Outcome :=
  (hs.getLast?.map Handover.outcome).getD .empty

theorem outcomeOf_append {before after : List Handover} (h : after ≠ []) :
    outcomeOf (before ++ after) = outcomeOf after := by
  simp [outcomeOf, List.getLast?_append, List.getLast?_eq_some_getLast h]

/-- An outcome but the empty one is that of a container, the last one. -/
theorem exists_last_of_outcomeOf {hs : List Handover} (h : outcomeOf hs ≠ .empty) :
    ∃ last, hs.getLast? = some last ∧ last.outcome = outcomeOf hs := by
  cases hlast : hs.getLast? with
  | none => simp [outcomeOf, hlast] at h
  | some last => exact ⟨last, rfl, by simp [outcomeOf, hlast]⟩

/-- A producer that hands on the given containers and says what became of the last one. -/
structure HandsOn (sealed : List Sealed) (steps : List Step) (outcome : Outcome) : Prop where
  sealed_eq : (handovers steps).map Handover.sealed = sealed
  outcome_eq : outcome = outcomeOf (handovers steps)
  record_eq : ∀ t : CommitTotals, t.record outcome = t.count (handovers steps)

namespace Collector

theorem publishData_handsOn {data : Container} {steps : List Step} {outcome : Outcome}
    (h : Trace (publishData data) steps outcome) :
    HandsOn (if data.isEmpty then [] else [.data data]) steps outcome := by
  unfold publishData at h
  by_cases he : data.isEmpty
  · rw [if_pos he] at h ⊢
    cases h
    exact ⟨rfl, rfl, fun _ => rfl⟩
  · rw [if_neg he] at h ⊢
    cases h with
    | @act _ _ accepted _ _ h =>
      cases accepted <;> cases h with
      | act h =>
        cases h
        exact ⟨rfl, rfl, fun _ => rfl⟩

theorem publishReset_handsOn {reset : Container} {steps : List Step} {outcome : Outcome}
    (h : Trace (publishReset reset) steps outcome) : HandsOn [.reset reset] steps outcome := by
  unfold publishReset at h
  cases h with
  | @act _ _ accepted _ _ h =>
    cases accepted <;> cases h with
    | act h =>
      cases h
      exact ⟨rfl, rfl, fun _ => rfl⟩

def count (c : Collector) (hs : List Handover) : Collector :=
  { c with totals := c.totals.count hs }

/-- A sealing is handed on whole, whatever becomes of its first container. -/
theorem trace_publish {c c' : Collector} {s : Sealing} {steps : List Step} {outcome : Outcome}
    (h : Trace (c.publish s) steps (outcome, c')) :
    (handovers steps).map Handover.sealed = s.handedOn ∧ outcome = outcomeOf (handovers steps) ∧
      c' = c.count (handovers steps) := by
  unfold publish at h
  obtain ⟨first, before, after, hd, hrest, rfl⟩ := h.of_bind
  obtain ⟨hds, hdo, hdr⟩ := publishData_handsOn hd
  cases hs : s.reset? with
  | none =>
    simp only [hs] at hrest
    cases hrest
    simp [Sealing.handedOn, hs, hds, ← hdo, count, hdr]
  | some reset =>
    simp only [hs] at hrest
    obtain ⟨last, middle, _, hr, hend, rfl⟩ := hrest.of_bind
    obtain ⟨hrs, hro, hrr⟩ := publishReset_handsOn hr
    cases hend
    have hne : handovers middle ≠ [] := by
      intro he
      simp [he] at hrs
    refine ⟨?_, ?_, ?_⟩
    · simp only [handovers_append, List.map_append, hds, hrs, Sealing.handedOn, hs,
        Option.toList_some, List.map_cons, List.map_nil, List.append_nil]
    · simp only [handovers_append, List.append_nil, hro, outcomeOf_append hne]
    · simp only [handovers_append, List.append_nil, count, CommitTotals.count_append,
        hdr, hrr]

/-- What was sealed is handed on in its order, and all that changes in the collector is its count of
what became of it. -/
theorem trace_handOn {c c' : Collector} {sealing? : Option Sealing} {steps : List Step}
    {outcome : Outcome} (h : Trace (c.handOn sealing?) steps (outcome, c')) :
    (handovers steps).map Handover.sealed = sealing?.elim [] Sealing.handedOn ∧
      outcome = (if sealing?.isSome then outcomeOf (handovers steps) else .accumulating) ∧
      c' = c.count (handovers steps) := by
  cases sealing? with
  | none =>
    cases h
    exact ⟨rfl, rfl, rfl⟩
  | some sealing => exact trace_publish h

end Collector

end EventCamera
