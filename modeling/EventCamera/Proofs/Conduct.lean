import EventCamera.Proofs.Settling

/-! # What is left of a producer

After some of its steps a producer is what is left of it. Decoding takes steps of a few kinds only:
it neither clears the flag nor ends the acquisition. -/

namespace EventCamera

namespace Producer

variable {α β : Type} {p : Producer α} {steps : List Step}

/-- What is left of a producer after some steps. -/
inductive After : Producer α → List Step → Producer α → Prop where
  | none (whole : Producer α) : After whole [] whole
  | act {action next answer steps rest} : After (next answer) steps rest →
      After (.act action next) (⟨action, answer⟩ :: steps) rest

theorem After.trace {result : α} (h : After p steps (.done result)) : Trace p steps result := by
  generalize hrest : Producer.done result = rest at h
  induction h with
  | none =>
    subst hrest
    exact .done result
  | act _ ih => exact .act (ih hrest)

theorem After.snoc {action : Action} {next : action.Answer → Producer α}
    (h : After p steps (.act action next)) (answer : action.Answer) :
    After p (steps ++ [⟨action, answer⟩]) (next answer) := by
  generalize hrest : Producer.act action next = rest at h
  induction h with
  | none =>
    subst hrest
    exact .act (.none _)
  | act _ ih => exact .act (ih hrest)

/-- What is left of two producers in sequence is left of the first, or of the second after the first
has come to its result. -/
theorem After.of_bind {f : α → Producer β} {rest : Producer β} (h : After (p >>= f) steps rest) :
    (∃ left, After p steps left ∧ rest = left >>= f) ∨
      ∃ a before after, Trace p before a ∧ After (f a) after rest ∧ steps = before ++ after := by
  induction p generalizing steps with
  | done a => exact .inr ⟨a, [], steps, .done a, h, rfl⟩
  | act action next ih =>
    cases h with
    | none => exact .inl ⟨.act action next, .none _, rfl⟩
    | act h =>
      rcases ih _ h with ⟨left, hleft, rfl⟩ | ⟨a, before, after, hp, hf, rfl⟩
      · exact .inl ⟨left, .act hleft, rfl⟩
      · exact .inr ⟨a, _, after, .act hp, hf, rfl⟩

end Producer

theorem Trace.after {α : Type} {p : Producer α} {steps : List Step} {result : α}
    (h : Trace p steps result) : p.After steps (.done result) := by
  induction h with
  | done result => exact .none _
  | act _ ih => exact .act ih

/-! ## Routine -/

def Action.isRoutine : Action → Bool
  | .isRunning | .level | .offer _ | .deliver _ | .report _ => true
  | .stop | .announceEnd | .close => false

/-- Steps that neither clear the flag nor end the acquisition. -/
def Routine (steps : List Step) : Prop :=
  ∀ s ∈ steps, s.action.isRoutine

inductive Producer.IsRoutine {α : Type} : Producer α → Prop where
  | done (result) : IsRoutine (.done result)
  | act {action next} : action.isRoutine → (∀ answer, IsRoutine (next answer)) →
      IsRoutine (.act action next)

namespace Producer

variable {α β : Type} {p : Producer α} {steps : List Step}

theorem IsRoutine.bind {f : α → Producer β} (hp : p.IsRoutine) (hf : ∀ a, (f a).IsRoutine) :
    (p >>= f).IsRoutine := by
  induction hp with
  | done result => exact hf result
  | act haction _ ih => exact .act haction ih

theorem isRoutine_reportAll (notices : List Notice) : (reportAll notices).IsRoutine := by
  induction notices with
  | nil => exact .done ()
  | cons notice notices ih => exact .act rfl fun _ => ih

theorem IsRoutine.of_after {rest : Producer α} (hp : p.IsRoutine) (h : After p steps rest) :
    Routine steps := by
  induction h with
  | none => exact List.forall_mem_nil _
  | act _ ih =>
    cases hp with
    | act haction hnext => exact List.forall_mem_cons.2 ⟨haction, ih (hnext _)⟩

theorem IsRoutine.of_trace {result : α} (hp : p.IsRoutine) (h : Trace p steps result) :
    Routine steps :=
  hp.of_after h.after

end Producer

/-! ## Decoding -/

namespace Collector

theorem isRoutine_publish (c : Collector) (s : Sealing) : (c.publish s).IsRoutine := by
  have hdata : (publishData s.data).IsRoutine := by
    unfold publishData
    split
    · exact .done _
    · refine .act rfl fun accepted => ?_
      cases accepted <;> exact .act rfl fun _ => .done _
  have hreset (reset : Container) : (publishReset reset).IsRoutine := by
    refine .act rfl fun accepted => ?_
    cases accepted <;> exact .act rfl fun _ => .done _
  unfold publish
  refine hdata.bind fun outcome => ?_
  cases s.reset? with
  | none => exact .done _
  | some reset => exact (hreset reset).bind fun _ => .done _

theorem isRoutine_handOn (c : Collector) (sealing? : Option Sealing) :
    (c.handOn sealing?).IsRoutine := by
  cases sealing? with
  | none => exact .done _
  | some sealing => exact c.isRoutine_publish sealing

end Collector

/-- A device that never asks for the acquisition to be stopped. -/
def Device.NeverStops (dev : Device) : Prop :=
  ∀ s unit, (dev.classify s unit).stops = false

namespace Decoder

variable {dev : Device}

theorem isRoutine_decodeUnit (hdev : dev.NeverStops) (d : Decoder dev) (unit : List UInt8) :
    (d.decodeUnit unit).IsRoutine := by
  unfold decodeUnit
  refine (Producer.isRoutine_reportAll _).bind fun _ => ?_
  simp only [hdev d.device unit, Bool.false_eq_true, if_false]
  refine (Producer.isRoutine_reportAll _).bind fun _ => ?_
  rw [conclude_eq, Settled.handOn]
  exact (Collector.isRoutine_handOn ..).bind fun _ => .done _

theorem isRoutine_overUnits {σ : Type}
    {step : σ → List UInt8 → Producer (σ × Except GrowthError Outcome)}
    (hstep : ∀ s unit, (step s unit).IsRoutine) (units : List (List UInt8)) (s : σ) :
    (overUnits step units s).IsRoutine := by
  induction units generalizing s with
  | nil => exact .done _
  | cons unit units ih =>
    refine (hstep s unit).bind fun ⟨s, result⟩ => ?_
    rcases result with e | outcome
    · exact .done _
    · cases outcome with
      | resetAbandoned => exact .done _
      | accumulating | empty | published | dropped => exact ih s

theorem isRoutine_decode (hdev : dev.NeverStops) (d : Decoder dev) (bytes : List UInt8) :
    (d.decode bytes).IsRoutine := by
  have hwhole : (overWhole decodeUnit d (units (max dev.unitWidth 1) bytes)).IsRoutine := by
    refine (isRoutine_overUnits (isRoutine_decodeUnit hdev) _ d).bind fun ⟨d, result⟩ => ?_
    cases result with
    | ok => exact .done _
    | error e => exact .act rfl fun _ => .done _
  refine .act rfl fun running => ?_
  cases running with
  | false => exact .done _
  | true =>
    change (if _ then _ else _ : Producer _).IsRoutine
    split
    · exact .act rfl fun _ => hwhole
    · exact hwhole

theorem isRoutine_flush (d : Decoder dev) : d.flush.IsRoutine := by
  unfold flush Collector.commit
  split
  · exact .done _
  · cases d.collector.takeOut none with
    | error e => exact .done _
    | ok r => exact (Collector.isRoutine_publish ..).bind fun _ => .done _

end Decoder

end EventCamera
