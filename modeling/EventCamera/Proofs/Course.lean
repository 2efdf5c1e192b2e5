import EventCamera.Proofs.Run
import EventCamera.Proofs.Steady

/-! # The course of a session

The calls of a session take its books through a run, and what the run seals is handed on. -/

namespace EventCamera

/-- Steps lead to the books of a run, with the counts of what became of its containers. -/
structure Ledger.Course {dev : Device} (b : Ledger dev) (moves : List Move) (hs : List Handover)
    (b' : Ledger dev) : Prop where
  end_eq : b' = (b.run moves).count hs
  sealed_eq : b'.sealed = b.sealed ++ hs.map Handover.sealed

namespace Ledger.Course

variable {dev : Device} {b b₁ b₂ : Ledger dev}

theorem nil (b : Ledger dev) : Course b [] [] b :=
  ⟨rfl, (List.append_nil _).symm⟩

theorem append {before after : List Move} {hs₁ hs₂ : List Handover}
    (h₁ : Course b before hs₁ b₁) (h₂ : Course b₁ after hs₂ b₂) :
    Course b (before ++ after) (hs₁ ++ hs₂) b₂ := by
  refine ⟨?_, ?_⟩
  · rw [h₂.end_eq, h₁.end_eq, run_count, run_append]
    simp only [count, Decoder.count, Decoder.withCollector, Collector.count,
      CommitTotals.count_append]
  · rw [h₂.sealed_eq, h₁.sealed_eq, List.map_append, List.append_assoc]

theorem totals_eq {moves : List Move} {hs : List Handover} (h : Course b moves hs b₁) :
    b₁.decoder.collector.totals = b.decoder.collector.totals.count hs := by
  rw [h.end_eq, ← totals_run b moves]
  rfl

theorem map_sealed {moves : List Move} {hs : List Handover} (h : Course b moves hs b₁)
    (hb : b.sealed = []) : hs.map Handover.sealed = (b.run moves).sealed := by
  have hend := congrArg Ledger.sealed h.end_eq
  rwa [h.sealed_eq, hb, List.nil_append] at hend

end Ledger.Course

namespace Ledger

variable {dev : Device} {b b' : Ledger dev}

private theorem not_steady_of_outcome {s : Settled dev} {steps : List Step}
    (h : .ok .resetAbandoned = s.outcome (handovers steps)) : ¬ Steady steps := by
  intro hsteady
  have ho := Settled.outcomeOf_of_outcome h (by decide)
  obtain ⟨last, hlast, hout⟩ := exists_last_of_outcomeOf (by rw [ho]; decide)
  obtain ⟨step, hmem, hstep⟩ := List.mem_filterMap.1 (List.mem_of_getLast? hlast)
  exact Step.outcome_ne (hsteady step hmem) hstep (hout.trans ho)

theorem trace_decodeUnit {unit : List UInt8} {steps : List Step}
    {result : Except GrowthError Outcome} (h : Trace (b.decodeUnit unit) steps (b', result)) :
    b.Course [.unit unit] (handovers steps) b' ∧
      result = (b.decoder.settle unit).outcome (handovers steps) := by
  obtain ⟨⟨decoder, outcome⟩, before, _, hd, hend, rfl⟩ := h.of_bind
  cases hend
  obtain ⟨hsealed, rfl, rfl⟩ := Decoder.trace_decodeUnit hd
  rw [List.append_nil]
  exact ⟨⟨rfl, by rw [hsealed]; rfl⟩, rfl⟩

theorem trace_overUnits {units : List (List UInt8)} {steps : List Step}
    {result : Except GrowthError Unit}
    (h : Trace (Decoder.overUnits decodeUnit units b) steps (b', result)) :
    ∃ decoded, decoded <+: units ∧ b.Course (decoded.map .unit) (handovers steps) b' ∧
      (result.isOk → b.Succeeds (decoded.map .unit) ∧ (Steady steps → decoded = units)) := by
  induction units generalizing b steps with
  | nil =>
    cases h
    exact ⟨[], List.nil_prefix, .nil _, fun _ => ⟨trivial, fun _ => rfl⟩⟩
  | cons unit units ih =>
    obtain ⟨⟨b₁, outcome⟩, before, after, hd, hrest, rfl⟩ := h.of_bind
    obtain ⟨hcourse, houtcome⟩ := trace_decodeUnit hd
    have hone : [unit] <+: unit :: units := List.prefix_append [unit] units
    rw [handovers_append]
    by_cases hstop : outcome = .ok .resetAbandoned
    · subst hstop
      cases hrest
      refine ⟨[unit], hone, hcourse.append (.nil _), fun _ => ⟨⟨Settled.isOk_of_outcome houtcome, trivial⟩,
        fun hsteady => ?_⟩⟩
      exact absurd (steady_append.1 hsteady).1 (not_steady_of_outcome houtcome)
    · cases outcome with
      | error e =>
        cases hrest
        exact ⟨[unit], hone, hcourse.append (.nil _), nofun⟩
      | ok outcome =>
        replace hrest : Trace (Decoder.overUnits decodeUnit units b₁) after (b', result) := by
          cases outcome with
          | resetAbandoned => exact absurd rfl hstop
          | accumulating | empty | published | dropped => exact hrest
        obtain ⟨decoded, hprefix, hlater, hwhole⟩ := ih hrest
        refine ⟨unit :: decoded, List.cons_prefix_cons.2 ⟨rfl, hprefix⟩, hcourse.append hlater,
          fun hok => ?_⟩
        obtain ⟨hsucceeds, hall⟩ := hwhole hok
        rw [hcourse.end_eq, succeeds_count] at hsucceeds
        refine ⟨⟨Settled.isOk_of_outcome houtcome, hsucceeds⟩, fun hsteady => ?_⟩
        rw [hall (steady_append.1 hsteady).2]

theorem isOk_overUnits {units : List (List UInt8)} {steps : List Step}
    {result : Except GrowthError Unit}
    (h : Trace (Decoder.overUnits decodeUnit units b) steps (b', result))
    (hsucceeds : b.Succeeds (units.map .unit)) : result.isOk := by
  induction units generalizing b steps with
  | nil =>
    cases h
    rfl
  | cons unit units ih =>
    obtain ⟨⟨b₁, outcome⟩, before, after, hd, hrest, rfl⟩ := h.of_bind
    obtain ⟨hcourse, houtcome⟩ := trace_decodeUnit hd
    obtain ⟨hfirst, hlater⟩ := hsucceeds
    cases outcome with
    | error e =>
      have hfail : (b.decoder.settle unit).result.isOk = false := by
        unfold Settled.outcome at houtcome
        cases hr : (b.decoder.settle unit).result with
        | error => rfl
        | ok => rw [hr] at houtcome; cases houtcome
      exact absurd hfirst (ne_true_of_eq_false hfail)
    | ok outcome =>
      cases outcome with
      | resetAbandoned =>
        cases hrest
        rfl
      | accumulating | empty | published | dropped =>
        refine ih hrest ?_
        rwa [hcourse.end_eq, succeeds_count]

end Ledger

namespace Decoder

variable {σ : Type} {step : σ → List UInt8 → Producer (σ × Except GrowthError Outcome)}
  {s s' : σ} {steps : List Step} {result : Except DecodeError Unit}

/-- The units are decoded, and nothing but a report may follow. -/
theorem trace_overWhole {units : List (List UInt8)}
    (h : Trace (overWhole step s units) steps (s', result)) :
    ∃ rest outcome, Trace (overUnits step units s) rest (s', outcome) ∧
      handovers steps = handovers rest ∧ (Steady steps → Steady rest) ∧
      result = outcome.mapError .allocation := by
  obtain ⟨⟨s₁, outcome⟩, before, after, hunits, hend, rfl⟩ := h.of_bind
  have hafter : handovers after = [] ∧ s' = s₁ ∧ result = outcome.mapError .allocation := by
    cases outcome with
    | ok =>
      cases hend
      exact ⟨rfl, rfl, rfl⟩
    | error e =>
      cases hend with
      | act hend =>
        cases hend
        exact ⟨rfl, rfl, rfl⟩
  obtain ⟨hnone, rfl, hresult⟩ := hafter
  refine ⟨before, outcome, hunits, ?_, fun hsteady => (steady_append.1 hsteady).1, hresult⟩
  rw [handovers_append, hnone, List.append_nil]

/-- A read is not decoded if the acquisition is no longer wanted, and else its units are. -/
theorem trace_overRead {width : Nat} {bytes : List UInt8}
    (h : Trace (overRead width step s bytes) steps (s', result)) :
    (steps = [⟨.isRunning, false⟩] ∧ s' = s ∧ result = .ok ()) ∨
      ∃ rest outcome, ⟨.isRunning, true⟩ ∈ steps ∧
        Trace (overUnits step (units width bytes) s) rest (s', outcome) ∧
        handovers steps = handovers rest ∧ (Steady steps → Steady rest) ∧
        result = outcome.mapError .allocation := by
  cases h with
  | @act _ _ running steps _ h =>
  cases running with
  | false =>
    cases h
    exact .inl ⟨rfl, rfl, rfl⟩
  | true =>
    obtain ⟨first, later, rfl, hfirst, h⟩ :=
      Trace.of_ite (c := bytes.length % width ≠ 0) (fun _ => rfl) h
    obtain ⟨rest, outcome, hunits, hhand, hrest, hresult⟩ := trace_overWhole h
    refine .inr ⟨rest, outcome, List.mem_cons_self, hunits, ?_, fun hsteady => hrest ?_, hresult⟩
    · change handovers (first ++ later) = _
      rw [handovers_append, hfirst, hhand, List.nil_append]
    · exact (steady_append.1 (List.forall_mem_cons.1 hsteady).2).2

end Decoder

namespace Ledger

variable {dev : Device} {b b' : Ledger dev}

/-- Decoding a read takes the books through the first of its units, and through all of them unless
something fails or the acquisition is no longer wanted. -/
theorem trace_decode {bytes : List UInt8} {steps : List Step} {result : Except DecodeError Unit}
    (h : Trace (b.call (.decode bytes)) steps (b', result)) :
    ∃ decoded, decoded <+: Decoder.units dev.unitWidth bytes ∧
      b.Course (decoded.map .unit) (handovers steps) b' ∧
      (result.isOk → b.Succeeds (decoded.map .unit) ∧
        (Steady steps → decoded = Decoder.units dev.unitWidth bytes)) := by
  rcases Decoder.trace_overRead h with
    ⟨rfl, rfl, rfl⟩ | ⟨rest, outcome, -, hunits, hhand, hsteady, rfl⟩
  · exact ⟨[], List.nil_prefix, .nil _, fun _ => ⟨trivial, fun hsteady =>
      nomatch hsteady _ List.mem_cons_self⟩⟩
  · rw [Decoder.units_max] at hunits
    obtain ⟨decoded, hprefix, hcourse, hwhole⟩ := trace_overUnits hunits
    rw [hhand]
    refine ⟨decoded, hprefix, hcourse, fun hok => ?_⟩
    have hok' : outcome.isOk := by
      cases outcome with
      | ok => rfl
      | error e => cases hok
    exact ⟨(hwhole hok').1, fun h => (hwhole hok').2 (hsteady h)⟩

theorem isOk_decode {bytes : List UInt8} {steps : List Step} {result : Except DecodeError Unit}
    (h : Trace (b.call (.decode bytes)) steps (b', result))
    (hsucceeds : b.Succeeds ((Decoder.units dev.unitWidth bytes).map .unit)) : result.isOk := by
  rcases Decoder.trace_overRead h with ⟨rfl, rfl, rfl⟩ | ⟨rest, outcome, -, hunits, -, -, rfl⟩
  · rfl
  · rw [Decoder.units_max] at hunits
    have hok := isOk_overUnits hunits hsucceeds
    cases outcome with
    | ok => rfl
    | error e => cases hok

/-- Flushing takes the books through one step. -/
theorem trace_flush {steps : List Step} {result : Except DecodeError Unit}
    (h : Trace (b.call .flush) steps (b', result)) :
    b.Course [.rest] (handovers steps) b' ∧
      result = (b.decoder.settleRest.result.mapError .allocation).map fun _ => () := by
  obtain ⟨⟨decoder, outcome⟩, before, _, hd, hend, rfl⟩ := h.of_bind
  cases hend
  obtain ⟨hsealed, rfl, rfl⟩ := Decoder.trace_flush hd
  rw [List.append_nil]
  refine ⟨⟨rfl, by rw [hsealed]; rfl⟩, ?_⟩
  cases b.decoder.settleRest.result <;> rfl

theorem trace_call {c : Call} {steps : List Step} {result : Except DecodeError Unit}
    (h : Trace (b.call c) steps (b', result)) :
    ∃ moves, moves <+: c.moves dev.unitWidth ∧ b.Course moves (handovers steps) b' ∧
      (result.isOk → b.Succeeds moves ∧ (Steady steps → moves = c.moves dev.unitWidth)) := by
  cases c with
  | decode bytes =>
    obtain ⟨decoded, hprefix, hcourse, hwhole⟩ := trace_decode h
    refine ⟨decoded.map .unit, hprefix.map _, hcourse, fun hok => ?_⟩
    obtain ⟨hsucceeds, hall⟩ := hwhole hok
    exact ⟨hsucceeds, fun hsteady => congrArg (List.map Move.unit) (hall hsteady)⟩
  | flush =>
    obtain ⟨hcourse, rfl⟩ := trace_flush h
    refine ⟨[.rest], List.prefix_rfl, hcourse, fun hok => ⟨⟨?_, trivial⟩, fun _ => rfl⟩⟩
    unfold Decoder.make
    cases hr : b.decoder.settleRest.result with
    | error e =>
      rw [hr] at hok
      cases hok
    | ok => rfl

/-- A session takes the books through steps of its calls, and through all of them if no call fails
and the acquisition is wanted throughout. -/
theorem trace_session {calls : List Call} {steps : List Step}
    {results : List (Except DecodeError Unit)}
    (h : Trace (session call calls b) steps (b', results)) :
    ∃ moves, b.Course moves (handovers steps) b' ∧
      ((∀ r ∈ results, r.isOk) → b.Succeeds moves ∧
        (Steady steps → moves = calls.flatMap (Call.moves dev.unitWidth))) := by
  induction calls generalizing b steps results with
  | nil =>
    cases h
    exact ⟨[], .nil _, fun _ => ⟨trivial, fun _ => rfl⟩⟩
  | cons c calls ih =>
    obtain ⟨⟨b₁, result⟩, before, _, hcall, hrest, rfl⟩ := h.of_bind
    obtain ⟨⟨b₂, later⟩, after, _, hsession, hend, rfl⟩ := hrest.of_bind
    cases hend
    obtain ⟨first, -, hfirst, hfirstWhole⟩ := trace_call hcall
    obtain ⟨moves, hmoves, hwhole⟩ := ih hsession
    rw [List.append_nil, handovers_append]
    refine ⟨first ++ moves, hfirst.append hmoves, fun hok => ?_⟩
    obtain ⟨hok₁, hok₂⟩ := List.forall_mem_cons.1 hok
    obtain ⟨hsucceeds₁, hall₁⟩ := hfirstWhole hok₁
    obtain ⟨hsucceeds₂, hall₂⟩ := hwhole hok₂
    rw [hfirst.end_eq, succeeds_count] at hsucceeds₂
    refine ⟨succeeds_append.2 ⟨hsucceeds₁, hsucceeds₂⟩, fun hsteady => ?_⟩
    obtain ⟨hsteady₁, hsteady₂⟩ := steady_append.1 hsteady
    rw [hall₁ hsteady₁, hall₂ hsteady₂, List.flatMap_cons]

end Ledger

/-! ## Sessions alone -/

/-- Whether a session that is alone comes to its end with steps and results as they are asked for. -/
def comesTo (dev : Device) (settings : Settings) (calls : List Call) (x : Exchange)
    (test : List Step → List (Except DecodeError Unit) → Bool) : Bool :=
  match Decoder.start dev settings with
  | .error _ => false
  | .ok d =>
    match (session Decoder.call calls d).alone x with
    | (steps, some ((_, results), _)) => test steps results
    | (_, none) => false

theorem exists_of_comesTo {dev : Device} {settings : Settings} {calls : List Call} {x : Exchange}
    {test : List Step → List (Except DecodeError Unit) → Bool}
    (h : comesTo dev settings calls x test) :
    ∃ d d' results steps x', Decoder.start dev settings = .ok d ∧
      Execution (session Decoder.call calls d) x (steps.map .acted) (d', results) x' ∧
      test steps results := by
  unfold comesTo at h
  split at h
  · cases h
  · rename_i d hd
    split at h
    · rename_i steps d' results x' hx
      exact ⟨d, d', results, steps, x', hd, Producer.execution_of_alone hx, h⟩
    · cases h

/-- Whether a session that is alone comes to its end without failure, and is wanted throughout. -/
def undisturbed (dev : Device) (settings : Settings) (calls : List Call) (x : Exchange) : Bool :=
  match Decoder.start dev settings with
  | .error _ => false
  | .ok d =>
    match (session Decoder.call calls d).alone x with
    | (steps, some ((_, results), _)) => results.all Except.isOk && steps.all Step.goesOn
    | (_, none) => false

theorem exists_of_undisturbed {dev : Device} {settings : Settings} {calls : List Call}
    {x : Exchange} (h : undisturbed dev settings calls x) :
    ∃ d d' results log x', Decoder.start dev settings = .ok d ∧
      Execution (session Decoder.call calls d) x log (d', results) x' ∧
      (∀ r ∈ results, r.isOk) ∧ Steady (stepsOf log) := by
  have h : comesTo dev settings calls x fun steps results =>
      results.all Except.isOk && steps.all Step.goesOn := h
  obtain ⟨d, d', results, steps, x', hd, hx, htest⟩ := exists_of_comesTo h
  obtain ⟨hok, hsteady⟩ := Bool.and_eq_true_iff.1 htest
  refine ⟨d, d', results, steps.map .acted, x', hd, hx, List.all_eq_true.1 hok, ?_⟩
  rw [stepsOf_acted]
  exact List.all_eq_true.1 hsteady

def leaves (dev : Device) (settings : Settings) (bytes : List UInt8) (x : Exchange)
    (test : Decoder dev → Except DecodeError Unit → Bool) : Bool :=
  match Decoder.start dev settings with
  | .error _ => false
  | .ok d =>
    match (d.decode bytes).alone x with
    | (_, some ((d', result), _)) => test d' result
    | (_, none) => false

theorem exists_of_leaves {dev : Device} {settings : Settings} {bytes : List UInt8} {x : Exchange}
    {test : Decoder dev → Except DecodeError Unit → Bool}
    (h : leaves dev settings bytes x test) :
    ∃ d d' result log x', Decoder.start dev settings = .ok d ∧
      Execution (d.decode bytes) x log (d', result) x' ∧ test d' result := by
  unfold leaves at h
  split at h
  · cases h
  · rename_i d hd
    split at h
    · rename_i steps d' result x' hx
      exact ⟨d, d', result, steps.map .acted, x', hd, Producer.execution_of_alone hx, h⟩
    · cases h

end EventCamera
