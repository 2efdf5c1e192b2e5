import EventCamera.Proofs.Handover

/-! # What is shown without some reports

Some reports may be of no interest. An execution shows all the rest: every other step of the
producer with its answer, and whatever others do. Producers that show the same, to the same results
and on the same exchanges, cannot be told apart without the reports that are hidden. -/

namespace EventCamera

section Shown

variable (hidden : Notice → Bool)

/-- Whether an action is a report that is hidden. -/
def Action.isHidden : Action → Bool
  | .report notice => hidden notice
  | .isRunning | .level | .offer _ | .deliver _ | .stop | .announceEnd | .close => false

def Occurrence.isHidden : Occurrence → Bool
  | .acted step => step.action.isHidden hidden
  | .taken _ | .switched _ | .closed => false

def shown (log : List Occurrence) : List Occurrence :=
  log.filter fun o => !o.isHidden hidden

theorem shown_append (log later : List Occurrence) :
    shown hidden (log ++ later) = shown hidden log ++ shown hidden later :=
  List.filter_append ..

theorem shown_cons_of_hidden {o : Occurrence} (h : o.isHidden hidden) (log : List Occurrence) :
    shown hidden (o :: log) = shown hidden log := by
  simp [shown, h]

theorem shown_cons_of_meanwhile {x x' : Exchange} {o : Occurrence} (h : x.Meanwhile o x')
    (log : List Occurrence) : shown hidden (o :: log) = o :: shown hidden log := by
  cases h <;> rfl

theorem shown_cons_of_not_hidden {o : Occurrence} (h : ¬ o.isHidden hidden)
    (log : List Occurrence) : shown hidden (o :: log) = o :: shown hidden log := by
  simp [shown, h]

theorem handovers_of_hidden {o : Occurrence} (h : o.isHidden hidden) :
    handovers (stepsOf [o]) = [] := by
  cases o with
  | taken | switched | closed => cases h
  | acted step =>
    obtain ⟨action, answer⟩ := step
    cases action with
    | report notice => rfl
    | isRunning | level | offer | deliver | stop | announceEnd | close => cases h

theorem handovers_shown (log : List Occurrence) :
    handovers (stepsOf (shown hidden log)) = handovers (stepsOf log) := by
  induction log with
  | nil => rfl
  | cons o log ih =>
    have hsplit (rest : List Occurrence) : handovers (stepsOf (o :: rest)) =
        handovers (stepsOf [o]) ++ handovers (stepsOf rest) := by
      rw [← handovers_append, ← stepsOf_append, List.singleton_append]
    by_cases h : o.isHidden hidden
    · rw [shown_cons_of_hidden hidden h, ih, hsplit log, handovers_of_hidden hidden h,
        List.nil_append]
    · rw [shown_cons_of_not_hidden hidden h, hsplit, hsplit log, ih]

namespace Producer

variable {α β : Type}

/-- A producer comes to its result on an exchange, and shows these occurrences. -/
def Shows (p : Producer α) (x : Exchange) (seen : List Occurrence) (result : α) (x' : Exchange) :
    Prop :=
  ∃ log, Execution p x log result x' ∧ shown hidden log = seen

/-- Producers that show the same. -/
def Alike (p q : Producer α) : Prop :=
  ∀ x seen result x', p.Shows hidden x seen result x' ↔ q.Shows hidden x seen result x'

end Producer

end Shown

namespace Producer

variable {hidden : Notice → Bool} {α β : Type} {p q : Producer α} {x x' : Exchange}
  {seen : List Occurrence}

theorem Shows.meanwhile {result : α} {o : Occurrence} {x₁ : Exchange} (ho : x.Meanwhile o x₁)
    (h : p.Shows hidden x₁ seen result x') : p.Shows hidden x (o :: seen) result x' := by
  obtain ⟨log, hlog, rfl⟩ := h
  exact ⟨o :: log, .meanwhile ho hlog, shown_cons_of_meanwhile hidden ho log⟩

theorem Shows.exists_trace {result : α} (h : p.Shows hidden x seen result x') :
    ∃ steps, Trace p steps result := by
  obtain ⟨log, hlog, -⟩ := h
  exact ⟨_, hlog.trace⟩

/-- What is shown tells what was handed over. -/
theorem Shows.exists_execution {result : α} (h : p.Shows hidden x seen result x') :
    ∃ log, Execution p x log result x' ∧ handovers (stepsOf log) = handovers (stepsOf seen) := by
  obtain ⟨log, hlog, rfl⟩ := h
  exact ⟨log, hlog, (handovers_shown hidden log).symm⟩

/-- Producers in sequence show what each of them shows. -/
theorem shows_bind_iff {f : α → Producer β} {result : β} :
    (p >>= f).Shows hidden x seen result x' ↔
      ∃ a before after x₁, p.Shows hidden x before a x₁ ∧
        (f a).Shows hidden x₁ after result x' ∧ seen = before ++ after := by
  constructor
  · rintro ⟨log, h, rfl⟩
    obtain ⟨a, before, after, x₁, hp, hf, rfl⟩ := h.of_bind
    exact ⟨a, _, _, x₁, ⟨before, hp, rfl⟩, ⟨after, hf, rfl⟩, shown_append ..⟩
  · rintro ⟨a, before, after, x₁, ⟨log, hp, rfl⟩, ⟨later, hf, rfl⟩, rfl⟩
    exact ⟨log ++ later, hp.bind hf, shown_append ..⟩

theorem shows_map_iff {f : α → β} {result : β} :
    (f <$> p).Shows hidden x seen result x' ↔
      ∃ a, p.Shows hidden x seen a x' ∧ f a = result := by
  constructor
  · rintro ⟨log, h, rfl⟩
    obtain ⟨a, hp, hf⟩ := h.of_map
    exact ⟨a, ⟨log, hp, rfl⟩, hf⟩
  · rintro ⟨a, ⟨log, hp, rfl⟩, rfl⟩
    have hmap : Execution (p >>= fun a => pure (f a)) x (log ++ []) (f a) x' :=
      hp.bind (.done (f a) x')
    rw [List.append_nil, bind_pure_comp] at hmap
    exact ⟨log, hmap, rfl⟩

/-- A hidden report makes no difference, whatever others do before it. -/
theorem alike_report {notice : Notice} (h : hidden notice) (p : Producer α) :
    Alike hidden (perform (.report notice) >>= fun _ => p) p := by
  intro x seen result x'
  have hreport : (Occurrence.acted ⟨.report notice, ()⟩).isHidden hidden := h
  constructor
  · rintro ⟨log, hlog, rfl⟩
    generalize hq : (perform (.report notice) >>= fun _ => p) = q at hlog
    induction hlog with
    | done => cases hq
    | @act action next x answer x₁ log result x₂ hperform hrest _ =>
      cases hq
      cases hperform
      exact ⟨log, hrest, (shown_cons_of_hidden hidden hreport log).symm⟩
    | meanwhile ho _ ih =>
      rw [shown_cons_of_meanwhile hidden ho]
      exact (ih hq).meanwhile ho
  · rintro ⟨log, hlog, rfl⟩
    exact ⟨_, .act rfl hlog, shown_cons_of_hidden hidden hreport log⟩

theorem Alike.refl (p : Producer α) : Alike hidden p p :=
  fun _ _ _ _ => Iff.rfl

theorem Alike.trans {r : Producer α} (h₁ : Alike hidden p q) (h₂ : Alike hidden q r) :
    Alike hidden p r :=
  fun x seen result x' => (h₁ x seen result x').trans (h₂ x seen result x')

/-- Producers that are alike go on alike, if they do so from every result that they can come to. -/
theorem Alike.bind {f g : α → Producer β} (h : Alike hidden p q)
    (hfg : ∀ a steps, Trace q steps a → Alike hidden (f a) (g a)) :
    Alike hidden (p >>= f) (q >>= g) := by
  intro x seen result x'
  rw [shows_bind_iff, shows_bind_iff]
  constructor
  · rintro ⟨a, before, after, x₁, hp, hf, rfl⟩
    have hq := (h ..).1 hp
    obtain ⟨steps, htrace⟩ := hq.exists_trace
    exact ⟨a, before, after, x₁, hq, (hfg a steps htrace ..).1 hf, rfl⟩
  · rintro ⟨a, before, after, x₁, hq, hg, rfl⟩
    obtain ⟨steps, htrace⟩ := hq.exists_trace
    exact ⟨a, before, after, x₁, (h ..).2 hq, (hfg a steps htrace ..).2 hg, rfl⟩

theorem alike_reportAll {notices : List Notice} (h : ∀ notice ∈ notices, hidden notice)
    (p : Producer α) : Alike hidden (reportAll notices >>= fun _ => p) p := by
  induction notices with
  | nil => exact .refl p
  | cons notice notices ih =>
    obtain ⟨hfirst, hrest⟩ := List.forall_mem_cons.1 h
    exact (alike_report hfirst _).trans (ih hrest)

end Producer

end EventCamera
