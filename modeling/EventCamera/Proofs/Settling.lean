import EventCamera.Decoder
import EventCamera.Proofs.Handover

/-! # What a unit comes to

Decoding a unit reads it, applies its codes, and settles whether anything is sealed. All of that is
a function of the decoder and the unit. Handing on what was sealed comes after, and changes nothing
but the counts. -/

namespace EventCamera

/-- What a step of a decoder came to before anything was handed on. -/
structure Settled (dev : Device) where
  decoder : Decoder dev
  /-- What was sealed, if there was a reason to seal anything. -/
  result : Except GrowthError (Option Sealing) := .ok none
  /-- The events that were sealed all the same by a reset that has no container. -/
  cut? : Option Container := none

/-- Without its container a reset hands on the events only. -/
theorem Collector.publish_of_fault {s : Sealing} {e : GrowthError} (h : s.fault? = some e)
    (c : Collector) : c.publish { data := s.data, reset := .ok none } = c.publish s := by
  obtain ⟨data, reset⟩ := s
  cases reset with
  | ok => cases h
  | error => rfl

namespace Settled

variable {dev : Device}

/-- What was sealed, whether the step failed or not. -/
def sealing? (s : Settled dev) : Option Sealing :=
  match s.result with
  | .ok sealing? => sealing?
  | .error _ => s.cut?.map fun data => { data, reset := .ok none }

def handedOn (s : Settled dev) : List Sealed :=
  s.sealing?.elim [] Sealing.handedOn

theorem handedOn_of_ok {s : Settled dev} {sealing? : Option Sealing} (h : s.result = .ok sealing?) :
    s.handedOn = sealing?.elim [] Sealing.handedOn := by
  rw [handedOn, Settled.sealing?, h]

def outcome (s : Settled dev) (hs : List Handover) : Except GrowthError Outcome :=
  s.result.map fun sealing? => if sealing?.isSome then outcomeOf hs else .accumulating

theorem isOk_of_outcome {s : Settled dev} {hs : List Handover} {outcome : Outcome}
    (h : .ok outcome = s.outcome hs) : s.result.isOk := by
  unfold Settled.outcome at h
  cases hr : s.result with
  | error e =>
    rw [hr] at h
    cases h
  | ok => rfl

theorem result_of_outcome {s : Settled dev} {hs : List Handover} {e : GrowthError}
    (h : s.outcome hs = .error e) : s.result = .error e := by
  unfold Settled.outcome at h
  cases hr : s.result with
  | error =>
    rw [hr] at h
    exact congrArg Except.error (Except.error.inj h)
  | ok =>
    rw [hr] at h
    cases h

theorem outcomeOf_of_outcome {s : Settled dev} {hs : List Handover} {outcome : Outcome}
    (h : .ok outcome = s.outcome hs) (hne : outcome ≠ .accumulating) : outcomeOf hs = outcome := by
  unfold Settled.outcome at h
  cases hr : s.result with
  | error e =>
    rw [hr] at h
    cases h
  | ok sealing? =>
    rw [hr] at h
    cases sealing? with
    | none => exact absurd (Except.ok.inj h) hne
    | some sealing => exact (Except.ok.inj h).symm

def handOn (s : Settled dev) : Producer (Decoder dev × Except GrowthError Outcome) :=
  do
    let (outcome, collector) ← s.decoder.collector.handOn s.sealing?
    return ({ s.decoder with collector }, s.result.map fun _ => outcome)

end Settled

namespace Decoder

variable {dev : Device}

def count (d : Decoder dev) (hs : List Handover) : Decoder dev :=
  d.withCollector (·.count hs)

/-- Reads a unit and applies its codes. -/
def applyUnit (d : Decoder dev) (unit : List UInt8) : Applied dev :=
  let seen := dev.classify d.device unit
  forEach apply seen.codes { d with device := seen.state }

def settled (a : Applied dev) : Settled dev :=
  match a.result.bind fun forced => (a.decoder.collector.settle forced).map (forced, ·) with
  | .error e => { decoder := a.decoder, result := .error e }
  | .ok (forced, sealing?, collector) =>
    let d := { a.decoder with collector }
    match sealing?.bind Sealing.fault? with
    | some e => { decoder := d, result := .error e, cut? := sealing?.map Sealing.data }
    | none => { decoder := if forced.isSome then d.invalidate else d, result := .ok sealing? }

/-- What a unit comes to. -/
def settle (d : Decoder dev) (unit : List UInt8) : Settled dev :=
  settled (d.applyUnit unit)

/-- What sealing the rest comes to. -/
def settleRest (d : Decoder dev) : Settled dev :=
  if d.pending = 0 then
    { decoder := d }
  else
    match d.collector.takeOut none with
    | .error e => { decoder := d, result := .error e }
    | .ok (sealing, collector) => { decoder := { d with collector }, result := .ok (some sealing) }

end Decoder

/-- Steps that hand on what was settled and lead to a decoder and a result. -/
structure Settled.HandedOn {dev : Device} (s : Settled dev) (steps : List Step) (d : Decoder dev)
    (result : Except GrowthError Outcome) : Prop where
  sealed_eq : (handovers steps).map Handover.sealed = s.handedOn
  decoder_eq : d = s.decoder.count (handovers steps)
  result_eq : result = s.outcome (handovers steps)

theorem Settled.trace_handOn {dev : Device} {s : Settled dev} {d : Decoder dev}
    {steps : List Step} {result : Except GrowthError Outcome}
    (h : Trace s.handOn steps (d, result)) : s.HandedOn steps d result := by
  obtain ⟨⟨outcome, collector⟩, _, _, hp, hend, rfl⟩ := h.of_bind
  cases hend
  obtain ⟨hsealed, rfl, rfl⟩ := Collector.trace_handOn hp
  rw [List.append_nil]
  refine ⟨hsealed, rfl, ?_⟩
  obtain ⟨decoder, settled, cut?⟩ := s
  cases settled <;> rfl

theorem handovers_of_reportAll {notices : List Notice} {steps : List Step} {result : Unit}
    (h : Trace (Producer.reportAll notices) steps result) : handovers steps = [] := by
  induction notices generalizing steps with
  | nil =>
    cases h
    rfl
  | cons notice notices ih =>
    cases h with
    | @act _ _ _ rest _ h =>
      change handovers rest = []
      exact ih h

namespace Decoder

variable {dev : Device}

theorem conclude_eq (a : Applied dev) : conclude a = (settled a).handOn := by
  unfold conclude settled Settled.handOn
  cases a.result with
  | error e => rfl
  | ok forced =>
    simp only [Except.bind]
    cases a.decoder.collector.settle forced with
    | error e => rfl
    | ok r =>
      obtain ⟨sealing?, collector⟩ := r
      simp only [Except.map]
      cases hfault : sealing?.bind Sealing.fault? with
      | some e =>
        obtain ⟨sealing, rfl, hsealing⟩ := Option.bind_eq_some_iff.1 hfault
        simp only [Settled.sealing?, Option.map_some, Collector.handOn,
          Collector.publish_of_fault hsealing]
      | none => cases forced <;> rfl

/-- Decoding a unit hands on what the unit sealed, and counts what became of it. -/
theorem trace_decodeUnit {d d' : Decoder dev} {unit : List UInt8} {steps : List Step}
    {result : Except GrowthError Outcome} (h : Trace (d.decodeUnit unit) steps (d', result)) :
    (d.settle unit).HandedOn steps d' result := by
  unfold decodeUnit at h
  obtain ⟨_, seen, after, hseen, hrest, rfl⟩ := h.of_bind
  obtain ⟨stop, rest, rfl, hstop, happly⟩ := Trace.of_ite (fun _ => rfl) hrest
  obtain ⟨_, applied, last, happlied, hend, rfl⟩ := happly.of_bind
  rw [conclude_eq] at hend
  have hs : handovers (seen ++ (stop ++ (applied ++ last))) = handovers last := by
    simp only [handovers_append, handovers_of_reportAll hseen, hstop,
      handovers_of_reportAll happlied, List.nil_append]
  obtain ⟨hsealed, hdecoder, hresult⟩ := Settled.trace_handOn hend
  rw [← hs] at hsealed hdecoder hresult
  exact ⟨hsealed, hdecoder, hresult⟩

/-- Flushing hands on what sealing the rest comes to, and counts what became of it. -/
theorem trace_flush {d d' : Decoder dev} {steps : List Step} {result : Except DecodeError Outcome}
    (h : Trace d.flush steps (d', result)) :
    (handovers steps).map Handover.sealed = d.settleRest.handedOn ∧
      d' = d.settleRest.decoder.count (handovers steps) ∧
      result = (d.settleRest.result.mapError .allocation).map fun _ =>
        outcomeOf (handovers steps) := by
  unfold flush at h
  unfold settleRest
  by_cases hp : d.pending = 0
  · rw [if_pos hp] at h ⊢
    cases h
    exact ⟨rfl, rfl, rfl⟩
  · rw [if_neg hp] at h ⊢
    unfold Collector.commit at h
    cases ht : d.collector.takeOut none with
    | error e =>
      rw [ht] at h
      cases h
      exact ⟨rfl, rfl, rfl⟩
    | ok r =>
      rw [ht] at h
      obtain ⟨⟨outcome, collector⟩, _, _, hp, hend, rfl⟩ := h.of_bind
      cases hend
      obtain ⟨hsealed, rfl, rfl⟩ := Collector.trace_publish hp
      rw [List.append_nil]
      exact ⟨hsealed, rfl, rfl⟩

end Decoder

end EventCamera
