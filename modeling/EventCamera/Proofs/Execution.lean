import EventCamera.Producer

/-! # Producers among others

An execution lets a producer act on the exchange while others act on it in between. Its trace keeps
only the steps of the producer. What a producer does is said about traces; what becomes of the
containers in the queue is said about executions. -/

namespace EventCamera

/-- An action of a producer and the answer it got. -/
structure Step where
  action : Action
  answer : action.Answer

/-- Something that happens to an exchange, by its producer or by someone else. -/
inductive Occurrence where
  | acted (step : Step)
  | taken (container : Container)
  | switched (running : Bool)
  | closed

/-- What an action is answered, and what it leaves. A container that waits for room gets no answer
yet. -/
def Exchange.perform (x : Exchange) : (action : Action) → Option (action.Answer × Exchange)
  | .isRunning => some (x.running, x)
  | .level => some (x.level, x)
  | .offer c => some ((x.offer c).1 == .accepted, (x.offer c).2)
  | .deliver c =>
    match x.deliver c with
    | (.accepted, x) => some (true, x)
    | (.rejected, x) => some (false, x)
    | (.waits, _) => none
  | .report _ => some ((), x)
  | .stop => some ((), x.setRunning false)
  | .announceEnd => some ((), x.notifyShutdown)
  | .close => some ((), x.close)

/-- What others do to an exchange: the consumer takes a container, and anyone may set or clear the
flag or close the queue. -/
inductive Exchange.Meanwhile : Exchange → Occurrence → Exchange → Prop where
  | take {x c x'} : x.take? = some (c, x') → Meanwhile x (.taken c) x'
  | switch (x running) : Meanwhile x (.switched running) (x.setRunning running)
  | close (x) : Meanwhile x .closed x.close

/-- A producer comes to its result on an exchange, among the acts of others. -/
inductive Execution {α : Type} :
    Producer α → Exchange → List Occurrence → α → Exchange → Prop where
  | done (result x) : Execution (.done result) x [] result x
  | act {action next x answer x₁ log result x₂} :
      x.perform action = some (answer, x₁) → Execution (next answer) x₁ log result x₂ →
      Execution (.act action next) x (.acted ⟨action, answer⟩ :: log) result x₂
  | meanwhile {p x o x₁ log result x₂} :
      x.Meanwhile o x₁ → Execution p x₁ log result x₂ → Execution p x (o :: log) result x₂

/-- The steps that lead a producer to a result, whatever the answers are. -/
inductive Trace {α : Type} : Producer α → List Step → α → Prop where
  | done (result) : Trace (.done result) [] result
  | act {action next answer steps result} : Trace (next answer) steps result →
      Trace (.act action next) (⟨action, answer⟩ :: steps) result

def Occurrence.step? : Occurrence → Option Step
  | .acted step => some step
  | .taken _ | .switched _ | .closed => none

def stepsOf (log : List Occurrence) : List Step :=
  log.filterMap Occurrence.step?

theorem stepsOf_append (log later : List Occurrence) :
    stepsOf (log ++ later) = stepsOf log ++ stepsOf later :=
  List.filterMap_append

theorem Exchange.Meanwhile.step?_eq_none {x x' : Exchange} {o : Occurrence}
    (h : x.Meanwhile o x') : o.step? = none := by
  cases h <;> rfl

theorem Execution.trace {α : Type} {p : Producer α} {x x' : Exchange} {log : List Occurrence}
    {result : α} (h : Execution p x log result x') : Trace p (stepsOf log) result := by
  induction h with
  | done result x => exact .done result
  | act _ _ ih => exact .act ih
  | meanwhile h _ ih => simpa only [stepsOf, List.filterMap_cons, h.step?_eq_none] using ih

/-- What a producer does while no one else acts: its steps, and where they lead, unless it waits
for room. -/
def Producer.alone {α : Type} : Producer α → Exchange → List Step × Option (α × Exchange)
  | .done result, x => ([], some (result, x))
  | .act action next, x =>
    match x.perform action with
    | none => ([], none)
    | some (answer, x) =>
      let (steps, reached) := (next answer).alone x
      (⟨action, answer⟩ :: steps, reached)

theorem Producer.execution_of_alone {α : Type} {p : Producer α} {x x' : Exchange}
    {steps : List Step} {result : α} (h : p.alone x = (steps, some (result, x'))) :
    Execution p x (steps.map .acted) result x' := by
  induction p generalizing x steps with
  | done =>
    cases h
    exact .done ..
  | act action next ih =>
    unfold alone at h
    cases hp : x.perform action with
    | none =>
      rw [hp] at h
      cases h
    | some r =>
      rw [hp] at h
      obtain ⟨rfl, hrest⟩ := Prod.mk.inj h
      exact .act hp (ih _ (Prod.ext rfl hrest))

theorem stepsOf_acted (steps : List Step) : stepsOf (steps.map .acted) = steps := by
  rw [stepsOf, List.filterMap_map]
  exact List.filterMap_some

/-! ## Producers in sequence -/

namespace Producer

variable {α β : Type}

private theorem map_id' (p : Producer α) : id <$> p = p := by
  induction p with
  | done result => rfl
  | act action next ih => exact congrArg (act action) (funext ih)

private theorem bind_assoc' {γ : Type} (p : Producer α) (f : α → Producer β)
    (g : β → Producer γ) : p >>= f >>= g = p >>= fun a => f a >>= g := by
  induction p with
  | done result => rfl
  | act action next ih => exact congrArg (act action) (funext ih)

instance : LawfulMonad Producer :=
  LawfulMonad.mk' Producer map_id' (fun _ _ => rfl) bind_assoc'

end Producer

/-- What a producer comes to after its result was changed, it comes to before. -/
theorem Execution.of_map {α β : Type} {f : α → β} {p : Producer α} {x x' : Exchange}
    {log : List Occurrence} {result : β} (h : Execution (f <$> p) x log result x') :
    ∃ a, Execution p x log a x' ∧ f a = result := by
  generalize hq : f <$> p = q at h
  induction h generalizing p with
  | done result x =>
    cases p with
    | done a =>
      cases hq
      exact ⟨a, .done a x, rfl⟩
    | act action next => cases hq
  | act hp _ ih =>
    cases p with
    | done a => cases hq
    | act action next =>
      cases hq
      obtain ⟨a, ha, hf⟩ := ih rfl
      exact ⟨a, .act hp ha, hf⟩
  | meanwhile ho _ ih =>
    obtain ⟨a, ha, hf⟩ := ih hq
    exact ⟨a, .meanwhile ho ha, hf⟩

namespace Execution

variable {α β : Type} {p : Producer α} {f : α → Producer β} {x x' : Exchange}
  {log : List Occurrence} {result : β}

theorem of_bind (h : Execution (p >>= f) x log result x') :
    ∃ a before after x₁, Execution p x before a x₁ ∧ Execution (f a) x₁ after result x' ∧
      log = before ++ after := by
  generalize hq : p >>= f = q at h
  induction h generalizing p with
  | done result x =>
    cases p with
    | done a =>
      have hf : f a = .done result := hq
      exact ⟨a, [], [], x, .done a x, hf ▸ .done result x, rfl⟩
    | act => cases hq
  | @act action next x answer x₁ log result x₂ hperform h ih =>
    cases p with
    | done a =>
      have hf : f a = .act action next := hq
      exact ⟨a, [], _, x, .done a x, hf ▸ .act hperform h, rfl⟩
    | act =>
      cases hq
      obtain ⟨a, before, after, x₁, hp, hf, rfl⟩ := ih rfl
      exact ⟨a, _, after, x₁, .act hperform hp, hf, rfl⟩
  | meanwhile ho _ ih =>
    obtain ⟨a, before, after, x₁, hp, hf, rfl⟩ := ih hq
    exact ⟨a, _, after, x₁, .meanwhile ho hp, hf, rfl⟩

theorem bind {a : α} {before after : List Occurrence} {x₁ : Exchange}
    (hp : Execution p x before a x₁) (hf : Execution (f a) x₁ after result x') :
    Execution (p >>= f) x (before ++ after) result x' := by
  induction hp with
  | done => exact hf
  | act hperform _ ih => exact .act hperform (ih hf)
  | meanwhile ho _ ih => exact .meanwhile ho (ih hf)

end Execution

namespace Trace

variable {α β : Type} {steps : List Step}

theorem of_bind {p : Producer α} {f : α → Producer β} {result : β}
    (h : Trace (p >>= f) steps result) :
    ∃ a before after, Trace p before a ∧ Trace (f a) after result ∧ steps = before ++ after := by
  induction p generalizing steps with
  | done a => exact ⟨a, [], steps, .done a, h, rfl⟩
  | act action next ih =>
    cases h with
    | act h =>
      obtain ⟨a, before, after, hp, hf, rfl⟩ := ih _ h
      exact ⟨a, _, after, .act hp, hf, rfl⟩

theorem of_map {f : α → β} {p : Producer α} {result : β} (h : Trace (f <$> p) steps result) :
    ∃ a, Trace p steps a ∧ f a = result := by
  rw [← bind_pure_comp] at h
  obtain ⟨a, before, _, hp, hf, rfl⟩ := h.of_bind
  cases hf
  exact ⟨a, by rwa [List.append_nil], rfl⟩

end Trace

end EventCamera
