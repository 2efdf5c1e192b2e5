import EventCamera.Proofs.Handover

/-! # Steady steps

Steps are steady as long as the acquisition is wanted whenever that matters. -/

namespace EventCamera

/-- A step that does not end what a producer is at: the acquisition is still wanted, and no reset is
abandoned. -/
def Step.goesOn : Step → Bool
  | ⟨.isRunning, running⟩ => running
  | ⟨.deliver _, accepted⟩ => accepted
  | _ => true

theorem Step.outcome_ne {step : Step} {h : Handover} (hgoes : step.goesOn)
    (hstep : step.handover? = some h) : h.outcome ≠ .resetAbandoned := by
  obtain ⟨action, answer⟩ := step
  cases action <;> cases hstep
  case offer => cases answer <;> exact nofun
  case deliver =>
    cases answer with
    | false => cases hgoes
    | true => exact nofun

/-- The acquisition was wanted whenever that mattered. -/
def Steady (steps : List Step) : Prop :=
  ∀ s ∈ steps, s.goesOn

theorem steady_nil : Steady [] :=
  List.forall_mem_nil _

theorem steady_append {before after : List Step} :
    Steady (before ++ after) ↔ Steady before ∧ Steady after :=
  List.forall_mem_append

theorem Steady.accepted {steps : List Step} (h : Steady steps) {o : Handover}
    (ho : o ∈ handovers steps) (hreset : o.sealed.isReset) : o.accepted := by
  obtain ⟨⟨action, answer⟩, hstep, ho⟩ := List.mem_filterMap.1 ho
  have hgoes := h _ hstep
  cases action <;> cases ho
  · cases hreset
  · exact hgoes

theorem Steady.countP_handovers {steps : List Step} (h : Steady steps) :
    ((handovers steps).countP fun o => o.accepted) +
        ((handovers steps).countP fun o => !o.accepted && !o.sealed.isReset) =
      (handovers steps).length := by
  rw [List.length_eq_countP_add_countP Handover.accepted]
  refine congrArg _ (List.countP_congr fun o ho => ?_)
  have hreset := h.accepted ho
  cases ha : o.accepted with
  | true => simp
  | false => simpa [ha] using hreset

def Occurrence.KeepsRunning : Occurrence → Prop
  | .acted ⟨.stop, _⟩ => False
  | .switched running => running
  | _ => True

theorem Exchange.notifyIncrease_running {x : Exchange} (hrunning : x.running = true)
    (hstop : x.stopAt = none) : x.notifyIncrease.running = true := by
  simp only [notifyIncrease, hrunning, hstop]
  rfl

theorem Exchange.perform_running {x x' : Exchange} {action : Action} {answer : action.Answer}
    (h : x.perform action = some (answer, x'))
    (hkeeps : (Occurrence.acted ⟨action, answer⟩).KeepsRunning) (hrunning : x.running = true)
    (hstop : x.stopAt = none) :
    (Step.mk action answer).goesOn ∧ x'.running = true ∧ x'.stopAt = none := by
  cases action with
  | isRunning =>
    cases h
    exact ⟨hrunning, hrunning, hstop⟩
  | offer c =>
    simp only [perform, offer] at h
    split at h <;> cases h
    · exact ⟨rfl, hrunning, hstop⟩
    · exact ⟨rfl, notifyIncrease_running hrunning hstop, hstop⟩
  | deliver c =>
    simp only [perform, deliver, hrunning] at h
    split at h <;> rename_i hd
    · cases h
      split at hd <;> cases hd
      exact ⟨rfl, notifyIncrease_running hrunning hstop, hstop⟩
    · split at hd <;> cases hd
    · cases h
  | stop => exact hkeeps.elim
  | level =>
    have hgoes : (Step.mk .level answer).goesOn := rfl
    obtain rfl := (Prod.mk.inj (Option.some.inj h)).2
    exact ⟨hgoes, hrunning, hstop⟩
  | report | announceEnd | close =>
    cases h
    exact ⟨rfl, hrunning, hstop⟩

theorem Exchange.Meanwhile.running {x x' : Exchange} {o : Occurrence} (h : x.Meanwhile o x')
    (hkeeps : o.KeepsRunning) (hrunning : x.running = true) (hstop : x.stopAt = none) :
    x'.running = true ∧ x'.stopAt = none := by
  cases h with
  | take h =>
    simp only [take?, Option.map_eq_some_iff] at h
    obtain ⟨_, _, he⟩ := h
    cases he
    exact ⟨hrunning, hstop⟩
  | switch => exact ⟨hkeeps, hstop⟩
  | close => exact ⟨hrunning, hstop⟩

/-- While no one clears the flag, the acquisition is wanted. -/
theorem Execution.steady {α : Type} {p : Producer α} {x x' : Exchange} {log : List Occurrence}
    {result : α} (h : Execution p x log result x') (hkeeps : ∀ o ∈ log, o.KeepsRunning)
    (hrunning : x.running = true) (hstop : x.stopAt = none) : Steady (stepsOf log) := by
  induction h with
  | done => exact steady_nil
  | act hp _ ih =>
    obtain ⟨hfirst, hkeeps⟩ := List.forall_mem_cons.1 hkeeps
    obtain ⟨hgoes, hrunning, hstop⟩ := Exchange.perform_running hp hfirst hrunning hstop
    exact List.forall_mem_cons.2 ⟨hgoes, ih hkeeps hrunning hstop⟩
  | meanwhile ho _ ih =>
    obtain ⟨hfirst, hkeeps⟩ := List.forall_mem_cons.1 hkeeps
    obtain ⟨hrunning, hstop⟩ := ho.running hfirst hrunning hstop
    simpa only [stepsOf, List.filterMap_cons, ho.step?_eq_none] using ih hkeeps hrunning hstop

end EventCamera
