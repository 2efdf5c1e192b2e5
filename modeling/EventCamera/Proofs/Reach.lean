import EventCamera.Proofs.Course
import EventCamera.Proofs.Framing

/-! # How far calls get

A call makes its steps up to the first one that fails. Only a reset that has to be abandoned ends it
before, and then this reset is the last container that is handed over. -/

namespace EventCamera

def Handover.isAbandoned (h : Handover) : Bool :=
  h.sealed.isReset && !h.accepted

theorem Handover.outcome_eq_resetAbandoned_iff {h : Handover} :
    h.outcome = .resetAbandoned ↔ h.isAbandoned := by
  obtain ⟨sealed, accepted⟩ := h
  cases sealed <;> cases accepted <;> simp [outcome, isAbandoned, Sealed.isReset]

/-- No reset was handed over in vain. -/
def NoneAbandoned (hs : List Handover) : Prop :=
  ∀ h ∈ hs, h.isAbandoned = false

theorem noneAbandoned_append {before after : List Handover} :
    NoneAbandoned (before ++ after) ↔ NoneAbandoned before ∧ NoneAbandoned after :=
  List.forall_mem_append

theorem Steady.noneAbandoned {steps : List Step} (h : Steady steps) :
    NoneAbandoned (handovers steps) := by
  intro o ho
  cases hreset : o.sealed.isReset with
  | false => simp [Handover.isAbandoned, hreset]
  | true => simp [Handover.isAbandoned, h.accepted ho hreset]

/-- Of the containers that are handed over only the last one is in vain, that of a reset. -/
def AbandonsLast (hs : List Handover) (r : Container) : Prop :=
  ∃ before, hs = before ++ [⟨.reset r, false⟩] ∧ NoneAbandoned before

namespace Settled

variable {dev : Device} {s : Settled dev} {hs : List Handover}

/-- Of the containers that a step seals, at most the last one is that of a reset. -/
theorem handedOn_eq (s : Settled dev) : ∃ (data : List Container) (reset? : Option Container),
    s.handedOn = data.map .data ++ reset?.toList.map .reset := by
  unfold handedOn
  cases s.sealing? with
  | none => exact ⟨[], none, rfl⟩
  | some sealing =>
    simp only [Option.elim_some, Sealing.handedOn]
    by_cases he : sealing.data.isEmpty
    · exact ⟨[], sealing.reset?, by rw [if_pos he]; rfl⟩
    · exact ⟨[sealing.data], sealing.reset?, by rw [if_neg he]; rfl⟩

theorem isOk_of_reset_mem {r : Container} (h : .reset r ∈ s.handedOn) :
    ∃ sealing, s.result = .ok (some sealing) := by
  obtain ⟨decoder, result, cut?⟩ := s
  rcases result with e | (_ | sealing)
  · cases cut? with
    | none => cases h
    | some data => simp [handedOn, sealing?, Sealing.handedOn, Sealing.reset?] at h
  · cases h
  · exact ⟨sealing, rfl⟩

/-- Of what a step hands over, at most the last container is in vain, that of its reset. -/
theorem noneAbandoned_or (h : hs.map Handover.sealed = s.handedOn) :
    NoneAbandoned hs ∨
      ∃ r, AbandonsLast hs r ∧ s.handedOn.getLast? = some (.reset r) := by
  obtain ⟨data, reset?, heq⟩ := s.handedOn_eq
  rw [heq] at h
  obtain ⟨before, last, rfl, hdata, hreset⟩ := List.map_eq_append_iff.1 h
  have hbefore : NoneAbandoned before := by
    intro o ho
    have hmem := hdata ▸ List.mem_map_of_mem ho
    obtain ⟨c, -, hc⟩ := List.mem_map.1 hmem
    simp [Handover.isAbandoned, ← hc, Sealed.isReset]
  cases reset? with
  | none =>
    obtain rfl := List.map_eq_nil_iff.1 hreset
    left
    rwa [List.append_nil]
  | some r =>
    obtain ⟨⟨sealed, accepted⟩, rest, rfl, rfl, hrest⟩ := List.map_eq_cons_iff.1 hreset
    obtain rfl := List.map_eq_nil_iff.1 hrest
    cases accepted with
    | true =>
      left
      refine noneAbandoned_append.2 ⟨hbefore, fun o ho => ?_⟩
      rw [List.mem_singleton.1 ho]
      rfl
    | false => exact .inr ⟨r, ⟨before, rfl, hbefore⟩, by rw [heq]; exact List.getLast?_concat⟩

theorem outcome_ne_of_noneAbandoned (h : NoneAbandoned hs) :
    s.outcome hs ≠ .ok .resetAbandoned := by
  intro ho
  have hout := outcomeOf_of_outcome ho.symm (by decide)
  obtain ⟨last, hlast, hlastOut⟩ := exists_last_of_outcomeOf (by rw [hout]; decide)
  have hfalse := h last (List.mem_of_getLast? hlast)
  rw [Handover.outcome_eq_resetAbandoned_iff.1 (hlastOut.trans hout)] at hfalse
  cases hfalse

theorem outcome_of_abandonsLast {r : Container} (h : hs.map Handover.sealed = s.handedOn)
    (ha : AbandonsLast hs r) : s.outcome hs = .ok .resetAbandoned := by
  obtain ⟨before, rfl, -⟩ := ha
  have hout : outcomeOf (before ++ [⟨.reset r, false⟩]) = .resetAbandoned :=
    outcomeOf_append (List.cons_ne_nil _ _)
  have hmem : .reset r ∈ s.handedOn := by
    rw [← h]
    simp
  obtain ⟨sealing, hr⟩ := isOk_of_reset_mem hmem
  rw [outcome, hr]
  exact congrArg Except.ok hout

end Settled

namespace Ledger

variable {dev : Device} {b b' : Ledger dev}

/-- The steps up to the first one that fails. -/
def reach : Ledger dev → List Move → List Move
  | _, [] => []
  | b, m :: rest =>
    m :: if (b.decoder.make m).result.isOk then (b.advance m).reach rest else []

/-- The first failure of a run, if there is one. -/
def verdict : Ledger dev → List Move → Except GrowthError Unit
  | _, [] => .ok ()
  | b, m :: rest => (b.decoder.make m).result.bind fun _ => (b.advance m).verdict rest

variable {hs : List Handover}

theorem reach_count (b : Ledger dev) (hs : List Handover) (moves : List Move) :
    (b.count hs).reach moves = b.reach moves := by
  induction moves generalizing b with
  | nil => rfl
  | cons m moves ih =>
    simp only [reach, advance_count, ih]
    simp only [count, Decoder.make_count]

theorem verdict_count (b : Ledger dev) (hs : List Handover) (moves : List Move) :
    (b.count hs).verdict moves = b.verdict moves := by
  induction moves generalizing b with
  | nil => rfl
  | cons m moves ih =>
    simp only [verdict, advance_count, ih]
    simp only [count, Decoder.make_count]

/-- Steps of a run end with a unit whose reset is abandoned. -/
def Abandoned (b : Ledger dev) (moves : List Move) (hs : List Handover) : Prop :=
  ∃ past unit r, moves = past ++ [.unit unit] ∧ AbandonsLast hs r ∧
    ((b.run past).decoder.settle unit).handedOn.getLast? = some (.reset r)

theorem reach_cons_of_isOk {m : Move} (hok : (b.decoder.make m).result.isOk) (rest : List Move) :
    b.reach (m :: rest) = m :: (b.advance m).reach rest := by
  rw [reach, if_pos hok]

theorem singleton_prefix_reach (b : Ledger dev) (m : Move) (rest : List Move) :
    [m] <+: b.reach (m :: rest) :=
  List.prefix_append [m] _

theorem reach_prefix (b : Ledger dev) (moves : List Move) : b.reach moves <+: moves := by
  induction moves generalizing b with
  | nil => exact List.prefix_rfl
  | cons m moves ih =>
    rw [reach]
    split
    · exact List.cons_prefix_cons.2 ⟨rfl, ih _⟩
    · exact List.cons_prefix_cons.2 ⟨rfl, List.nil_prefix⟩

/-- Of the steps that a run reaches, only the last one fails. -/
theorem isOk_of_prefix_reach {before after moves : List Move} {m : Move}
    (h : before ++ m :: after <+: b.reach moves) (hafter : after ≠ []) :
    ((b.run before).decoder.make m).result.isOk := by
  induction before generalizing b moves with
  | nil =>
    cases moves with
    | nil => exact absurd (List.prefix_nil.1 h) (List.cons_ne_nil _ _)
    | cons m' moves =>
      obtain ⟨rfl, hrest⟩ := List.cons_prefix_cons.1 h
      split at hrest
      · assumption
      · exact absurd (List.prefix_nil.1 hrest) hafter
  | cons m' before ih =>
    cases moves with
    | nil => exact absurd (List.prefix_nil.1 h) (List.cons_ne_nil _ _)
    | cons m'' moves =>
      obtain ⟨rfl, hrest⟩ := List.cons_prefix_cons.1 h
      split at hrest
      · exact ih hrest
      · exact absurd (List.prefix_nil.1 hrest) (by simp)

theorem verdict_cons_of_isOk {m : Move} (hok : (b.decoder.make m).result.isOk) (rest : List Move) :
    b.verdict (m :: rest) = (b.advance m).verdict rest := by
  rw [verdict]
  cases hr : (b.decoder.make m).result with
  | error e =>
    rw [hr] at hok
    cases hok
  | ok => rfl

theorem Course.handedOn_eq {m : Move} (h : b.Course [m] hs b') :
    hs.map Handover.sealed = (b.decoder.make m).handedOn := by
  have hend := congrArg Ledger.sealed h.end_eq
  rw [h.sealed_eq] at hend
  exact List.append_cancel_left (hend.trans (b.sealed_advance m))

theorem Abandoned.append {first moves : List Move} {later : List Handover}
    (hnone : NoneAbandoned hs) (h : ((b.run first).count hs).Abandoned moves later) :
    b.Abandoned (first ++ moves) (hs ++ later) := by
  obtain ⟨past, last, r, rfl, ⟨before, rfl, hbefore⟩, hsettle⟩ := h
  refine ⟨first ++ past, last, r, ?_, ⟨hs ++ before, ?_, ?_⟩, ?_⟩
  · exact (List.append_assoc ..).symm
  · exact (List.append_assoc ..).symm
  · exact noneAbandoned_append.2 ⟨hnone, hbefore⟩
  · have hmake := Decoder.make_count ((b.run first).run past).decoder hs (.unit last)
    rw [run_count] at hsettle
    rw [run_append]
    exact (congrArg (fun s => s.handedOn.getLast?) hmake).symm.trans hsettle

/-- Decoding units gets as far as their steps do not fail. Only a reset that has to be abandoned ends
it before. -/
theorem trace_overUnits_reach {units : List (List UInt8)} {steps : List Step}
    {result : Except GrowthError Unit}
    (h : Trace (Decoder.overUnits decodeUnit units b) steps (b', result)) :
    (NoneAbandoned (handovers steps) ∧
        b.Course (b.reach (units.map .unit)) (handovers steps) b' ∧
        result = b.verdict (units.map .unit)) ∨
      ∃ moves, moves <+: b.reach (units.map .unit) ∧ b.Course moves (handovers steps) b' ∧
        b.Abandoned moves (handovers steps) := by
  induction units generalizing b steps with
  | nil =>
    cases h
    exact .inl ⟨List.forall_mem_nil _, .nil _, rfl⟩
  | cons unit units ih =>
    obtain ⟨⟨b₁, outcome⟩, before, after, hd, hrest, rfl⟩ := h.of_bind
    obtain ⟨hcourse, rfl⟩ := trace_decodeUnit hd
    have hsealed := hcourse.handedOn_eq
    rw [List.map_cons, handovers_append]
    rcases Settled.noneAbandoned_or hsealed with hnone | ⟨r, hlast, hreset⟩
    · have hne := Settled.outcome_ne_of_noneAbandoned (s := b.decoder.settle unit) hnone
      cases houtcome : (b.decoder.settle unit).outcome (handovers before) with
      | error e =>
        simp only [houtcome] at hrest
        cases hrest
        have hfail : (b.decoder.make (.unit unit)).result = .error e :=
          Settled.result_of_outcome houtcome
        left
        rw [handovers_nil, List.append_nil]
        refine ⟨hnone, ?_, ?_⟩
        · rw [reach, hfail]
          exact hcourse
        · rw [verdict, hfail]
          rfl
      | ok outcome =>
        have hok : (b.decoder.make (.unit unit)).result.isOk :=
          Settled.isOk_of_outcome houtcome.symm
        simp only [houtcome] at hrest
        replace hrest : Trace (Decoder.overUnits decodeUnit units b₁) after (b', result) := by
          cases outcome with
          | resetAbandoned => exact absurd houtcome hne
          | accumulating | empty | published | dropped => exact hrest
        have hend : b₁ = (b.advance (.unit unit)).count (handovers before) := hcourse.end_eq
        rw [reach_cons_of_isOk hok, verdict_cons_of_isOk hok]
        rcases ih hrest with ⟨hlater, hcourse', hresult⟩ | ⟨moves, hprefix, hcourse', habandoned⟩
        · rw [hend, reach_count] at hcourse'
          rw [hend, verdict_count] at hresult
          exact .inl ⟨noneAbandoned_append.2 ⟨hnone, hlater⟩, hcourse.append (hend ▸ hcourse'),
            hresult⟩
        · rw [hend, reach_count] at hprefix
          have hwhole : b.Abandoned ([.unit unit] ++ moves) _ := .append hnone (hend ▸ habandoned)
          exact .inr ⟨.unit unit :: moves, List.cons_prefix_cons.2 ⟨rfl, hprefix⟩,
            hcourse.append hcourse', hwhole⟩
    · have hstop := Settled.outcome_of_abandonsLast hsealed hlast
      change (b.decoder.settle unit).outcome _ = _ at hstop
      simp only [hstop] at hrest
      cases hrest
      rw [handovers_nil, List.append_nil]
      exact .inr ⟨[.unit unit], singleton_prefix_reach .., hcourse, [], unit, r, rfl, hlast,
        hreset⟩

/-- A read is not decoded if the acquisition is no longer wanted. Else decoding gets as far as its
steps do not fail, unless a reset has to be abandoned. -/
theorem trace_decode_reach {bytes : List UInt8} {steps : List Step}
    {result : Except DecodeError Unit} (h : Trace (b.call (.decode bytes)) steps (b', result)) :
    (steps = [⟨.isRunning, false⟩] ∧ b' = b ∧ result = .ok ()) ∨
      ⟨.isRunning, true⟩ ∈ steps ∧
        ((NoneAbandoned (handovers steps) ∧
            b.Course (b.reach (Call.moves dev.unitWidth (.decode bytes))) (handovers steps) b' ∧
            result = (b.verdict (Call.moves dev.unitWidth (.decode bytes))).mapError .allocation) ∨
          ∃ moves, moves <+: b.reach (Call.moves dev.unitWidth (.decode bytes)) ∧
            b.Course moves (handovers steps) b' ∧ b.Abandoned moves (handovers steps)) := by
  rcases Decoder.trace_overRead h with hnone | ⟨rest, outcome, hrunning, hunits, hhand, -, rfl⟩
  · exact .inl hnone
  · rw [Decoder.units_max] at hunits
    rw [hhand]
    refine .inr ⟨hrunning, ?_⟩
    rcases trace_overUnits_reach hunits with ⟨hnone, hcourse, rfl⟩ | habandoned
    · exact .inl ⟨hnone, hcourse, rfl⟩
    · exact .inr habandoned

theorem trace_decode_unit {unit : List UInt8} {steps : List Step} {result : Except DecodeError Unit}
    (hunit : unit.length = max dev.unitWidth 1)
    (h : Trace (b.call (.decode unit)) steps (b', result)) :
    (steps = [⟨.isRunning, false⟩] ∧ b' = b ∧ result = .ok ()) ∨
      ⟨.isRunning, true⟩ ∈ steps ∧ b.Course [.unit unit] (handovers steps) b' ∧
        result = ((b.decoder.make (.unit unit)).result.map fun _ => ()).mapError .allocation := by
  rcases Decoder.trace_overRead h with hnone | ⟨rest, outcome, hrunning, hunits, hhand, -, rfl⟩
  · exact .inl hnone
  · rw [Decoder.units_max, Decoder.units_of_length hunit] at hunits
    obtain ⟨⟨b₁, settled⟩, before, after, hd, hrest, rfl⟩ := hunits.of_bind
    obtain ⟨hcourse, hsettled⟩ := trace_decodeUnit hd
    refine .inr ⟨hrunning, ?_⟩
    rw [hhand, handovers_append]
    cases settled with
    | error e =>
      cases hrest
      have hfail : (b.decoder.make (.unit unit)).result = .error e :=
        Settled.result_of_outcome hsettled.symm
      rw [hfail]
      exact ⟨hcourse.append (.nil _), rfl⟩
    | ok settled =>
      have hok : (b.decoder.make (.unit unit)).result.isOk := Settled.isOk_of_outcome hsettled
      have hdone : after = [] ∧ b' = b₁ ∧ outcome = .ok () := by
        cases settled <;> cases hrest <;> exact ⟨rfl, rfl, rfl⟩
      obtain ⟨rfl, rfl, rfl⟩ := hdone
      refine ⟨hcourse.append (.nil _), ?_⟩
      cases hr : (b.decoder.make (.unit unit)).result with
      | error e =>
        rw [hr] at hok
        cases hok
      | ok => rfl

/-- Whatever a read comes to, it takes the books through units as far as their steps do not fail. -/
theorem exists_decoded {bytes : List UInt8} {steps : List Step} {result : Except DecodeError Unit}
    (h : Trace (b.call (.decode bytes)) steps (b', result)) :
    ∃ decoded, decoded <+: Decoder.units dev.unitWidth bytes ∧
      decoded.map .unit <+: b.reach (Call.moves dev.unitWidth (.decode bytes)) ∧
      b.Course (decoded.map .unit) (handovers steps) b' := by
  have hmoves : ∃ moves, moves <+: b.reach (Call.moves dev.unitWidth (.decode bytes)) ∧
      b.Course moves (handovers steps) b' := by
    rcases trace_decode_reach h with
      ⟨rfl, rfl, -⟩ | ⟨-, ⟨-, hcourse, -⟩ | ⟨moves, hreach, hcourse, -⟩⟩
    · exact ⟨[], List.nil_prefix, .nil _⟩
    · exact ⟨_, List.prefix_rfl, hcourse⟩
    · exact ⟨moves, hreach, hcourse⟩
  obtain ⟨moves, hreach, hcourse⟩ := hmoves
  obtain ⟨decoded, hdecoded, rfl⟩ := List.prefix_map_iff.1 (hreach.trans (b.reach_prefix _))
  exact ⟨decoded, hdecoded, hreach, hcourse⟩

/-- As long as the acquisition is wanted, a call gets as far as its steps do not fail. -/
theorem trace_call_of_steady {c : Call} {steps : List Step} {result : Except DecodeError Unit}
    (h : Trace (b.call c) steps (b', result)) (hsteady : Steady steps) :
    b.Course (b.reach (c.moves dev.unitWidth)) (handovers steps) b' ∧
      result = (b.verdict (c.moves dev.unitWidth)).mapError .allocation := by
  cases c with
  | decode bytes =>
    rcases trace_decode_reach h with ⟨rfl, -, -⟩ | ⟨-, ⟨-, hcourse, hresult⟩ | habandoned⟩
    · exact nomatch hsteady _ List.mem_cons_self
    · exact ⟨hcourse, hresult⟩
    · obtain ⟨moves, -, -, -, -, r, -, ⟨before, hhand, -⟩, -⟩ := habandoned
      have hlast := hsteady.noneAbandoned ⟨.reset r, false⟩ (by rw [hhand]; simp)
      cases hlast
  | flush =>
    obtain ⟨hcourse, rfl⟩ := trace_flush h
    have hreach : b.reach (Call.moves dev.unitWidth .flush) = [.rest] := by
      simp only [Call.moves, reach, ite_self]
    refine ⟨hreach ▸ hcourse, ?_⟩
    simp only [Call.moves, verdict, Decoder.make]
    cases b.decoder.settleRest.result <;> rfl

/-- The steps of calls, as far as each call gets. -/
def itinerary : Ledger dev → List Call → List Move
  | _, [] => []
  | b, c :: rest =>
    b.reach (c.moves dev.unitWidth) ++ (b.run (b.reach (c.moves dev.unitWidth))).itinerary rest

theorem itinerary_count (b : Ledger dev) (hs : List Handover) (calls : List Call) :
    (b.count hs).itinerary calls = b.itinerary calls := by
  induction calls generalizing b with
  | nil => rfl
  | cons c calls ih => simp only [itinerary, reach_count, run_count, ih]

end Ledger

end EventCamera
