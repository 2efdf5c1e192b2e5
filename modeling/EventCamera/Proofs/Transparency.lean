import EventCamera.Proofs.Capacity
import EventCamera.Proofs.Framing
import EventCamera.Proofs.Observation
import EventCamera.Proofs.Triggers
import EventCamera.Wire.DvXplorer.Encode

/-! # Units that are not understood

A unit that a device makes nothing of is reported, and that is all: it is followed by an evaluation
like any other unit, but while no call fails, none is ever due. So such units can be put in anywhere,
also in the middle of a sample, and nothing else changes. -/

namespace EventCamera

def Notice.isRejection : Notice → Bool
  | .reservedSpecial | .unknownSpecial _ | .columnOutOfRange .. | .rowGroupOutOfRange ..
  | .unknownMisc _ | .unknownUnit _ => true
  | .timeWentBack .. | .containerCommitted _ | .containerDropped _ | .resetCommitted
  | .resetAbandoned | .partialUnit .. | .growthFailed _ | .epochChanged _ | .resetReceived
  | .specialReceived _ | .sampleDiscarded .. | .pixelOutOfRange .. | .sampleOverrun _
  | .noSensorEnabled | .sampleStarted => false

/-- A device makes nothing of a unit: it rejects it, and remembers nothing of it. -/
structure Device.Ignores (dev : Device) (s : dev.State) (unit : List UInt8) : Prop where
  state_eq : (dev.classify s unit).state = s
  codes_eq : (dev.classify s unit).codes = []
  stops_eq : (dev.classify s unit).stops = false
  isRejection : ∀ notice ∈ (dev.classify s unit).notices, notice.isRejection

/-! ## Streams with further units -/

/-- Some units, and the same ones with further units among them. -/
inductive Interspersed (further : List UInt8 → Bool) :
    List (List UInt8) → List (List UInt8) → Prop where
  | nil : Interspersed further [] []
  | keep {units all} (unit : List UInt8) : Interspersed further units all →
      Interspersed further (unit :: units) (unit :: all)
  | insert {units all} {unit : List UInt8} : further unit → Interspersed further units all →
      Interspersed further units (unit :: all)

/-- Some call, and the same one with further units in what it reads. All reads are of whole units. -/
inductive Call.Padded (width : Nat) (further : List UInt8 → Bool) : Call → Call → Prop where
  | decode {bytes padded : List UInt8} : max width 1 ∣ bytes.length →
      max width 1 ∣ padded.length →
      Interspersed further (Decoder.units width bytes) (Decoder.units width padded) →
      Call.Padded width further (.decode bytes) (.decode padded)
  | flush : Call.Padded width further .flush .flush

namespace Interspersed

variable {further : List UInt8 → Bool} {units all units' all' : List (List UInt8)}

theorem same (further : List UInt8 → Bool) (units : List (List UInt8)) :
    Interspersed further units units := by
  induction units with
  | nil => exact .nil
  | cons unit units ih => exact .keep unit ih

theorem of_all (h : ∀ unit ∈ all, further unit) : Interspersed further [] all := by
  induction all with
  | nil => exact .nil
  | cons unit all ih =>
    obtain ⟨hfirst, hrest⟩ := List.forall_mem_cons.1 h
    exact .insert hfirst (ih hrest)

theorem append (h : Interspersed further units all) (h' : Interspersed further units' all') :
    Interspersed further (units ++ units') (all ++ all') := by
  induction h with
  | nil => exact h'
  | keep unit _ ih => exact .keep unit ih
  | insert hunit _ ih => exact .insert hunit ih

end Interspersed

/-! ## Decoding them -/

namespace Decoder

variable {dev : Device} {limit : Nat} {d : Decoder dev}

/-- Between two steps that do not fail: the buffers are provided, and there is no reason to seal. -/
structure ProvidedAtRest (limit : Nat) (d : Decoder dev) : Prop where
  supplied : d.Supplied limit
  atRest : d.collector.AtRest

theorem providedAtRest_start {settings : Settings} (h : Decoder.start dev settings = .ok d) :
    d.ProvidedAtRest settings.capacityLimit := by
  have hfresh := start_ok h
  refine ⟨supplied_start h, Collector.not_isFull_of_isEmpty hfresh.isEmpty, ?_⟩
  rw [show d.collector.clock = _ from hfresh.clock_eq]
  rfl

namespace ProvidedAtRest

theorem count (h : d.ProvidedAtRest limit) (hs : List Handover) : (d.count hs).ProvidedAtRest limit :=
  ⟨h.supplied, h.atRest.not_isFull, h.atRest.not_isDue⟩

theorem make (h : d.ProvidedAtRest limit) {m : Move} (hok : (d.make m).result.isOk) :
    (d.make m).decoder.ProvidedAtRest limit := by
  refine ⟨(keptBySteps_supplied limit).make h.supplied m, ?_⟩
  cases m with
  | unit unit => exact atRest_settled hok
  | rest => exact atRest_settleRest h.atRest

theorem decodeUnit (h : d.ProvidedAtRest limit) {unit : List UInt8} {steps : List Step} {d' : Decoder dev}
    {outcome : Outcome} (htrace : Trace (d.decodeUnit unit) steps (d', .ok outcome)) :
    d'.ProvidedAtRest limit := by
  obtain ⟨-, rfl, hresult⟩ := trace_decodeUnit htrace
  exact (h.make (m := .unit unit) (Settled.isOk_of_outcome hresult)).count _

theorem call (h : d.ProvidedAtRest limit) {c : Call} {steps : List Step} {d' : Decoder dev}
    {result : Except DecodeError Unit} (htrace : Trace (Decoder.call c d) steps (d', result))
    (hok : result.isOk) : d'.ProvidedAtRest limit := by
  obtain ⟨b', hb, rfl⟩ := Ledger.exists_trace { decoder := d } htrace
  obtain ⟨moves, -, hcourse, hsucceeds⟩ := Ledger.trace_call hb
  rw [hcourse.end_eq]
  refine ProvidedAtRest.count ?_ _
  refine (hsucceeds hok).1.induction (P := fun b => b.decoder.ProvidedAtRest limit) ?_ h
  intro b m hprovided hstep
  rw [b.decoder_advance]
  exact hprovided.make hstep

theorem decodeUnit_of_ignores (h : d.ProvidedAtRest limit) {unit : List UInt8}
    (hignores : dev.Ignores d.device unit) : d.decodeUnit unit =
      Producer.reportAll (dev.classify d.device unit).notices >>= fun _ =>
        pure (d, .ok .accumulating) := by
  have hsettle := h.atRest.settle_none
  have hconclude : conclude { decoder := d } = pure (d, .ok .accumulating) := by
    simp only [conclude, Except.bind, hsettle]
    rfl
  simp only [Decoder.decodeUnit, hignores.state_eq, hignores.codes_eq, hignores.stops_eq]
  exact congrArg (Producer.reportAll _ >>= ·) (funext fun _ => hconclude)

end ProvidedAtRest

variable {further : List UInt8 → Bool}

/-- Further units of which the device makes nothing make no difference to the others. -/
theorem alike_overUnits (hignores : ∀ unit, further unit → ∀ s, dev.Ignores s unit)
    {units all : List (List UInt8)} (h : Interspersed further units all) (hd : d.ProvidedAtRest limit) :
    Producer.Alike Notice.isRejection (overUnits decodeUnit all d)
      (overUnits decodeUnit units d) := by
  induction h generalizing d with
  | nil => exact .refl _
  | keep unit _ ih =>
    refine Producer.Alike.bind (.refl _) ?_
    intro r steps htrace
    obtain ⟨d', result⟩ := r
    cases result with
    | error e => exact .refl _
    | ok outcome =>
      have hnext := ih (hd.decodeUnit htrace)
      cases outcome with
      | resetAbandoned => exact .refl _
      | accumulating | empty | published | dropped => exact hnext
  | @insert units all unit hunit _ ih =>
    have hunit := hignores unit hunit d.device
    have hreported : overUnits decodeUnit (unit :: all) d =
        Producer.reportAll (dev.classify d.device unit).notices >>= fun _ =>
          overUnits decodeUnit all d := by
      rw [overUnits, hd.decodeUnit_of_ignores hunit, bind_assoc]
      rfl
    rw [hreported]
    exact (Producer.alike_reportAll hunit.isRejection _).trans (ih hd)

/-- A call with further units in what it reads is like the call without them. -/
theorem alike_call (hignores : ∀ unit, further unit → ∀ s, dev.Ignores s unit)
    {c padded : Call} (h : c.Padded dev.unitWidth further padded) (hd : d.ProvidedAtRest limit) :
    Producer.Alike Notice.isRejection (call padded d) (call c d) := by
  cases h with
  | flush => exact .refl _
  | @decode bytes padded hbytes hpadded hunits =>
    have hwhole {stream : List UInt8} (hstream : max dev.unitWidth 1 ∣ stream.length) :
        call (.decode stream) d = Producer.perform .isRunning >>= fun running =>
          if running then overWhole decodeUnit d (Decoder.units dev.unitWidth stream)
          else pure (d, .ok ()) := by
      simp only [call, decode, overRead, Nat.mod_eq_zero_of_dvd hstream, units_max]
      rfl
    rw [hwhole hbytes, hwhole hpadded]
    refine Producer.Alike.bind (.refl _) ?_
    intro running _ _
    cases running with
    | false => exact .refl _
    | true => exact (alike_overUnits hignores hunits hd).bind fun _ _ _ => .refl _

end Decoder

theorem session_results_ne_nil {σ : Type} {call : Call → σ → Producer (σ × Except DecodeError Unit)}
    {c : Call} {calls : List Call} {s s' : σ} {steps : List Step}
    {results : List (Except DecodeError Unit)}
    (h : Trace (session call (c :: calls) s) steps (s', results)) : results ≠ [] := by
  obtain ⟨⟨s₁, result⟩, _, _, -, hrest, -⟩ := h.of_bind
  obtain ⟨⟨s₂, later⟩, _, _, -, hend, -⟩ := hrest.of_bind
  cases hend
  exact List.cons_ne_nil _ _

theorem shows_session_cons_iff {σ : Type} {hidden : Notice → Bool}
    {call : Call → σ → Producer (σ × Except DecodeError Unit)} {c : Call} {calls : List Call}
    {s s' : σ} {x x' : Exchange} {seen : List Occurrence}
    {results : List (Except DecodeError Unit)} :
    (session call (c :: calls) s).Shows hidden x seen (s', results) x' ↔
      ∃ s₁ result later before after x₁, results = result :: later ∧
        (call c s).Shows hidden x before (s₁, result) x₁ ∧
        (session call calls s₁).Shows hidden x₁ after (s', later) x' ∧ seen = before ++ after := by
  have hsplit : session call (c :: calls) s = call c s >>= fun first =>
      (fun rest => (rest.1, first.2 :: rest.2)) <$> session call calls first.1 := rfl
  rw [hsplit, Producer.shows_bind_iff]
  constructor
  · rintro ⟨⟨s₁, result⟩, before, after, x₁, hfirst, hrest, rfl⟩
    obtain ⟨⟨s₂, later⟩, hsession, hend⟩ := Producer.shows_map_iff.1 hrest
    cases hend
    exact ⟨s₁, result, later, before, after, x₁, rfl, hfirst, hsession, rfl⟩
  · rintro ⟨s₁, result, later, before, after, x₁, rfl, hfirst, hsession, rfl⟩
    exact ⟨(s₁, result), before, after, x₁, hfirst,
      Producer.shows_map_iff.2 ⟨(s', later), hsession, rfl⟩, rfl⟩

namespace Decoder

variable {dev : Device} {limit : Nat} {d : Decoder dev} {further : List UInt8 → Bool}

/-- As long as no call but the last fails, further units of which the device makes nothing are not seen
in a session but for the reports on them. -/
theorem shows_session_iff (hignores : ∀ unit, further unit → ∀ s, dev.Ignores s unit)
    {calls padded : List Call} (h : List.Forall₂ (Call.Padded dev.unitWidth further) calls padded)
    (hd : d.ProvidedAtRest limit) {d' : Decoder dev} {x x' : Exchange} {seen : List Occurrence}
    {results : List (Except DecodeError Unit)} (hok : ∀ r ∈ results.dropLast, r.isOk) :
    (session call padded d).Shows Notice.isRejection x seen (d', results) x' ↔
      (session call calls d).Shows Notice.isRejection x seen (d', results) x' := by
  induction h generalizing d x seen results with
  | nil => exact Iff.rfl
  | @cons c p calls padded hfirst hrest ih =>
    rw [shows_session_cons_iff, shows_session_cons_iff]
    refine exists₄_congr fun d₁ result later before => exists₂_congr fun after x₁ => ?_
    refine and_congr_right ?_
    rintro rfl
    rw [alike_call hignores hfirst hd x before (d₁, result) x₁]
    refine and_congr_right fun hshows => and_congr_left fun _ => ?_
    cases hrest with
    | nil => exact Iff.rfl
    | cons hsecond hrest =>
      by_cases hlater : later = []
      · subst hlater
        have hnone {cs : List Call} {c : Call} :
            ¬ (session call (c :: cs) d₁).Shows Notice.isRejection x₁ after (d', []) x' := by
          intro hsession
          obtain ⟨steps, htrace⟩ := hsession.exists_trace
          exact session_results_ne_nil htrace rfl
        exact iff_of_false hnone hnone
      · rw [List.dropLast_cons_of_ne_nil hlater] at hok
        obtain ⟨hresult, hok⟩ := List.forall_mem_cons.1 hok
        obtain ⟨steps, htrace⟩ := hshows.exists_trace
        exact ih (hd.call htrace hresult) hok

end Decoder

end EventCamera
