import EventCamera.Proofs.Conservation
import EventCamera.Proofs.Ending
import EventCamera.Proofs.Running

/-! # The life of a worker

A worker takes turn after turn, while the consumer and others act in between. What it makes of the
bytes it has read does not depend on how they were cut into reads. -/

namespace EventCamera

variable {dev : Device} {t : Transport}

/-- A turn that also tells what its read came to, if there was one. -/
def Worker.listen (w : Worker dev t) : Producer (Option Reading × Turn dev t) := do
  if ← Producer.perform .isRunning then
    let (reading, w) ← w.read
    let turn ← w.respond reading
    return (some reading, turn)
  else
    return (none, .finished w)

theorem Worker.listen_forget (w : Worker dev t) : Prod.snd <$> w.listen = w.turn := by
  unfold listen turn
  rw [map_bind]
  refine bind_congr fun running => ?_
  split
  · simp only [map_bind]
    refine bind_congr fun ⟨reading, w⟩ => ?_
    exact bind_pure _
  · rfl

theorem Worker.exists_listen {w : Worker dev t} {x x' : Exchange} {log : List Occurrence}
    {turn : Turn dev t} (h : Execution w.turn x log turn x') :
    ∃ reading?, Execution w.listen x log (reading?, turn) x' := by
  rw [← listen_forget] at h
  obtain ⟨⟨reading?, _⟩, hlisten, rfl⟩ := h.of_map
  exact ⟨reading?, hlisten⟩

/-- Turns that follow one another, from one turn to another, with what was read in them. -/
inductive Life : Turn dev t → Exchange → List Occurrence → List Reading → Turn dev t → Exchange →
    Prop where
  | rest (turn x) : Life turn x [] [] turn x
  | turn {w x log reading? turn x₁ later readings last x₂} :
      Execution w.listen x log (reading?, turn) x₁ → Life turn x₁ later readings last x₂ →
      Life (.again w) x (log ++ later) (reading?.toList ++ readings) last x₂

/-- An acquisition that goes on to the end of a turn lets its worker live on. -/
theorem Acquisition.life_of_advance {a : Acquisition dev t} {helping : Nat} {w : Worker dev t}
    {turn : Turn dev t} (hx : a.exchange.Bounded) (ha : a.turn = .done (.again w))
    (h : (a.advance helping).2.turn? = some turn) :
    ∃ log readings,
      Life (.again w) a.exchange log readings turn (a.advance helping).2.exchange ∧
        takenFrom log = (a.advance helping).1 := by
  have hrun : (w.turn.run a.exchange helping).progress = .finished turn := by
    simp only [turn?, advance, ha, Turn.next] at h
    cases hp : (w.turn.run a.exchange helping).progress with
    | finished last =>
      rw [hp] at h
      exact congrArg _ (Option.some.inj h)
    | waiting rest =>
      obtain ⟨action, next, rfl⟩ := Producer.exists_act_of_waiting hp
      rw [hp] at h
      cases h
  obtain ⟨log, hlog, htaken⟩ := Producer.execution_of_run hrun hx
  obtain ⟨reading?, hlisten⟩ := w.exists_listen hlog
  have hlife := Life.turn hlisten (.rest turn _)
  rw [List.append_nil, List.append_nil] at hlife
  simp only [advance, ha, Turn.next]
  exact ⟨log, _, hlife, htaken⟩

/-- The bytes that were read. -/
def delivered (readings : List Reading) : List UInt8 :=
  readings.flatMap fun
    | .data bytes => bytes
    | .unavailable | .lost | .crashed => []

theorem delivered_append (readings later : List Reading) :
    delivered (readings ++ later) = delivered readings ++ delivered later :=
  List.flatMap_append

namespace Worker

variable {w w' : Worker dev t} {steps : List Step}

theorem trace_read {reading : Reading} (h : Trace w.read steps (reading, w')) :
    handovers steps = [] ∧ ∃ transport, w' = { w with transport } := by
  obtain ⟨level, before, after, hlevel, hread, rfl⟩ := h.of_bind
  have hbefore : handovers before = [] := by
    unfold backlog at hlevel
    split at hlevel
    · cases hlevel with
      | act hdone =>
        cases hdone
        rfl
    · cases hlevel
      rfl
  have hafter : after = [] ∧ ∃ transport, w' = { w with transport } := by
    split at hread
    · cases hread
      exact ⟨rfl, w.transport, rfl⟩
    · cases hread
      exact ⟨rfl, _, rfl⟩
  obtain ⟨rfl, htransport⟩ := hafter
  rw [List.append_nil]
  exact ⟨hbefore, htransport⟩

theorem trace_listen {reading? : Option Reading} {turn : Turn dev t}
    (h : Trace w.listen steps (reading?, turn)) :
    (steps = [⟨.isRunning, false⟩] ∧ reading? = none ∧ turn = .finished w) ∨
      ∃ reading transport rest, reading? = some reading ∧
        Trace (({ w with transport } : Worker dev t).respond reading) rest turn ∧
        handovers steps = handovers rest ∧ (Steady steps → Steady rest) := by
  cases h with
  | @act _ _ running steps _ h =>
  cases running with
  | false =>
    cases h
    exact .inl ⟨rfl, rfl, rfl⟩
  | true =>
    have h' : Trace (do
        let (reading, w) ← w.read
        let turn ← w.respond reading
        return (some reading, turn)) steps (reading?, turn) := h
    obtain ⟨⟨reading, w₁⟩, before, after, hread, hrest, rfl⟩ := h'.of_bind
    obtain ⟨turn', rest, _, hrespond, hend, rfl⟩ := hrest.of_bind
    cases hend
    obtain ⟨hbefore, transport, rfl⟩ := trace_read hread
    refine .inr ⟨reading, transport, rest, rfl, hrespond, ?_, fun hsteady => ?_⟩
    · change handovers (before ++ (rest ++ [])) = _
      rw [handovers_append, hbefore, List.append_nil, List.nil_append]
    · have hlater := (steady_append.1 (List.forall_mem_cons.1 hsteady).2).2
      exact (steady_append.1 hlater).1

/-- Winding up takes the books through the last step. -/
theorem trace_windUp (h : Trace w.windUp steps w') {b : Ledger dev} (hb : b.decoder = w.decoder) :
    ∃ b', b.Course [.rest] (handovers steps) b' ∧ w' = { w with
      decoder := b'.decoder
      totals := { w.totals with transportEnded := true } } := by
  obtain ⟨⟨d, result⟩, before, after, hflush, hend, rfl⟩ := h.of_bind
  have hafter : handovers after = [] ∧ w' = { w with
      decoder := d
      totals := { w.totals with transportEnded := true } } := by
    obtain - | ⟨hend⟩ := hend
    obtain - | ⟨hend⟩ := hend
    obtain - | ⟨hend⟩ := hend
    cases hend
    exact ⟨rfl, rfl⟩
  obtain ⟨hnone, rfl⟩ := hafter
  rw [← hb] at hflush
  obtain ⟨hsealed, rfl, -⟩ := Decoder.trace_flush hflush
  rw [handovers_append, hnone, List.append_nil]
  exact ⟨(b.advance .rest).count (handovers before), ⟨rfl, by rw [hsealed]; rfl⟩, rfl⟩

/-- A worker that has read some bytes, and what it handed on so far: unless a call failed, it went
through the units that the bytes fill. -/
structure HasRead (b : Ledger dev) (bytes : List UInt8) (hs : List Handover) (w : Worker dev t) :
    Prop where
  carried_eq : w.carried = (partUnits dev.unitWidth bytes).2
  bytes_eq : w.totals.bytes = bytes.length
  course : w.totals.decodeErrors = 0 →
    b.Succeeds ((Decoder.units dev.unitWidth bytes).map .unit) ∧
      ∃ b', b.Course ((Decoder.units dev.unitWidth bytes).map .unit) hs b' ∧
        b'.decoder = w.decoder

/-- A worker that has come to its end: unless a call failed, it went through the units that the
bytes fill, and then sealed the rest. -/
structure Through (b : Ledger dev) (bytes : List UInt8) (hs : List Handover) (w : Worker dev t) :
    Prop where
  bytes_eq : w.totals.bytes = bytes.length
  course : w.totals.decodeErrors = 0 →
    b.Succeeds ((Decoder.units dev.unitWidth bytes).map .unit) ∧
      ∃ b', b.Course ((Decoder.units dev.unitWidth bytes).map .unit ++ [.rest]) hs b' ∧
        b'.decoder = w.decoder

section HasRead

variable {b : Ledger dev} {bytes : List UInt8} {hs : List Handover}

theorem hasRead_start {settings : Settings} {source : t.State} {paced : Bool}
    (h : start dev settings t source paced = .ok w) :
    0 < dev.unitWidth ∧ Decoder.start dev settings = .ok w.decoder ∧
      w.HasRead { decoder := w.decoder } [] [] := by
  have hfresh := start_ok h
  have hnone : Decoder.units dev.unitWidth [] = [] := Decoder.units_of_lt (Nat.le_max_right ..)
  refine ⟨hfresh.width_pos, hfresh.decoder_eq, ?_, ?_, fun _ => ?_⟩
  · rw [hfresh.carried_eq]
    rfl
  · rw [hfresh.totals_eq]
    rfl
  rw [hnone]
  exact ⟨trivial, _, .nil _, rfl⟩

theorem HasRead.receive (hwidth : 0 < dev.unitWidth) (hhasRead : w.HasRead b bytes hs)
    {more : List UInt8} (h : Trace (w.receive more) steps w') (hsteady : Steady steps) :
    w'.HasRead b (bytes ++ more) (hs ++ handovers steps) := by
  have hunits := units_partUnits_append hwidth bytes more
  rw [units_partUnits hwidth, ← hhasRead.carried_eq, ← units_partUnits hwidth (w.carried ++ more)]
    at hunits
  have hcarried := partUnits_snd_append dev.unitWidth bytes more
  rw [← hhasRead.carried_eq] at hcarried
  have hlength : w.totals.bytes + more.length = (bytes ++ more).length := by
    rw [hhasRead.bytes_eq, List.length_append]
  unfold Worker.receive at h
  rcases hparts : partUnits dev.unitWidth (w.carried ++ more) with ⟨whole, carried⟩
  simp only [hparts] at h hcarried hunits
  by_cases hempty : whole = []
  · subst hempty
    cases h
    have hnone : Decoder.units dev.unitWidth [] = [] := Decoder.units_of_lt (Nat.le_max_right ..)
    rw [hnone, List.append_nil] at hunits
    refine ⟨hcarried.symm, hlength, fun herrors => ?_⟩
    rw [hunits, handovers_nil, List.append_nil]
    exact hhasRead.course herrors
  · rw [if_neg (by simpa using hempty)] at h
    obtain ⟨⟨d, result⟩, steps, _, hdecode, hend, rfl⟩ := h.of_bind
    cases hend
    rw [List.append_nil] at hsteady ⊢
    refine ⟨hcarried.symm, hlength, fun herrors => ?_⟩
    obtain ⟨hbefore, hfailed⟩ := Nat.add_eq_zero_iff.1 herrors
    have hok : result.isOk := by
      cases result with
      | error e => cases hfailed
      | ok => rfl
    obtain ⟨hsucceeds, b₁, hcourse, hb₁⟩ := hhasRead.course hbefore
    rw [← hb₁] at hdecode
    obtain ⟨b', hb', rfl⟩ := b₁.exists_trace (c := .decode whole) hdecode
    obtain ⟨decoded, -, hmore, hall⟩ := Ledger.trace_decode hb'
    obtain ⟨hlater, hwhole⟩ := hall hok
    rw [hwhole hsteady] at hmore hlater
    rw [hcourse.end_eq, Ledger.succeeds_count] at hlater
    rw [hunits, List.map_append]
    exact ⟨Ledger.succeeds_append.2 ⟨hsucceeds, hlater⟩, b', hcourse.append hmore, rfl⟩

theorem HasRead.windUp (hhasRead : w.HasRead b bytes hs) (h : Trace w.windUp steps w') :
    w'.Through b bytes (hs ++ handovers steps) := by
  have hbytes : w'.totals.bytes = w.totals.bytes ∧
      w'.totals.decodeErrors = w.totals.decodeErrors := by
    obtain ⟨b', hcourse, rfl⟩ := trace_windUp h (b := { decoder := w.decoder }) rfl
    exact ⟨rfl, rfl⟩
  refine ⟨hbytes.1.trans hhasRead.bytes_eq, fun herrors => ?_⟩
  obtain ⟨hsucceeds, b₁, hcourse, hb₁⟩ := hhasRead.course (hbytes.2 ▸ herrors)
  obtain ⟨b', hlast, rfl⟩ := trace_windUp h hb₁
  exact ⟨hsucceeds, b', hcourse.append hlast, rfl⟩

/-- A turn keeps a worker abreast of what it reads, or leads it through to its end. -/
theorem HasRead.respond (hwidth : 0 < dev.unitWidth) (hhasRead : w.HasRead b bytes hs)
    {reading : Reading} {turn : Turn dev t} (h : Trace (w.respond reading) steps turn)
    (hsteady : Steady steps) :
    (∃ w', turn = .again w' ∧
        w'.HasRead b (bytes ++ delivered [reading]) (hs ++ handovers steps)) ∨
      (∃ w', turn = .finished w' ∧
        w'.Through b (bytes ++ delivered [reading]) (hs ++ handovers steps)) ∨
      turn = .crashed := by
  cases reading with
  | unavailable =>
    cases h
    exact .inl ⟨w, rfl, by simpa [delivered] using hhasRead⟩
  | crashed =>
    cases h
    exact .inr (.inr rfl)
  | lost =>
    obtain ⟨w', steps, _, hend, hdone, rfl⟩ := Trace.of_bind (p := w.windUp) h
    cases hdone
    exact .inr (.inl ⟨w', rfl, by simpa [delivered] using hhasRead.windUp hend⟩)
  | data more =>
    cases more with
    | nil =>
      obtain ⟨w', steps, _, hend, hdone, rfl⟩ := Trace.of_bind (p := w.windUp) h
      cases hdone
      exact .inr (.inl ⟨w', rfl, by simpa [delivered] using hhasRead.windUp hend⟩)
    | cons byte more =>
      obtain ⟨w', steps, _, hmore, hdone, rfl⟩ :=
        Trace.of_bind (p := w.receive (byte :: more)) h
      cases hdone
      rw [List.append_nil] at hsteady
      exact .inl ⟨w', rfl, by simpa [delivered] using hhasRead.receive hwidth hmore hsteady⟩

end HasRead

end Worker

/-- A worker that was abreast of its bytes, and came to its end while the acquisition was wanted,
went through all that it read meanwhile. -/
theorem Life.through {w w' : Worker dev t} {x x' : Exchange} {log : List Occurrence}
    {readings : List Reading} (hwidth : 0 < dev.unitWidth)
    (h : Life (.again w) x log readings (.finished w') x') (hsteady : Steady (stepsOf log))
    {b : Ledger dev} {bytes : List UInt8} {hs : List Handover} (hhasRead : w.HasRead b bytes hs) :
    w'.Through b (bytes ++ delivered readings) (hs ++ handovers (stepsOf log)) := by
  generalize hfirst : Turn.again w = first at h
  generalize hlast : Turn.finished w' = last at h
  induction h generalizing w bytes hs with
  | rest =>
    subst hfirst
    cases hlast
  | @turn w _ log reading? turn _ later readings _ _ h hlater ih =>
    cases hfirst
    subst hlast
    rw [stepsOf_append] at hsteady
    obtain ⟨hnow, hthen⟩ := steady_append.1 hsteady
    rcases Worker.trace_listen h.trace with ⟨hsteps, -, -⟩ |
      ⟨reading, transport, rest, rfl, hrespond, hhand, hrest⟩
    · rw [hsteps] at hnow
      exact nomatch hnow _ List.mem_cons_self
    · have hhasRead' : ({ w with transport } : Worker dev t).HasRead b bytes hs :=
        ⟨hhasRead.carried_eq, hhasRead.bytes_eq, hhasRead.course⟩
      rw [stepsOf_append, handovers_append, delivered_append, ← List.append_assoc,
        ← List.append_assoc, hhand]
      rcases hhasRead'.respond hwidth hrespond (hrest hnow) with
        ⟨w₁, rfl, hnext⟩ | ⟨w₁, rfl, hend⟩ | rfl
      · exact ih hthen hnext rfl rfl
      · cases hlater
        simpa [delivered, stepsOf] using hend
      · cases hlater

/-! ## Workers alone -/

/-- What a worker does in a number of turns at most while no one else acts: its steps, its reads,
and the last turn, unless it waits for room. -/
def Turn.alone : Nat → Turn dev t → Exchange →
    Option (List Step × List Reading × Turn dev t × Exchange)
  | turns + 1, .again w, x =>
    match w.listen.alone x with
    | (_, none) => none
    | (steps, some ((reading?, turn), x)) =>
      (turn.alone turns x).map fun (later, readings, last, x) =>
        (steps ++ later, reading?.toList ++ readings, last, x)
  | _, turn, x => some ([], [], turn, x)

theorem Turn.life_of_alone {turns : Nat} {turn last : Turn dev t} {x x' : Exchange}
    {steps : List Step} {readings : List Reading}
    (h : turn.alone turns x = some (steps, readings, last, x')) :
    Life turn x (steps.map .acted) readings last x' := by
  fun_induction Turn.alone turns turn x generalizing steps readings with
  | case1 => cases h
  | case2 x turns w now reading? turn x₁ hnow ih =>
    obtain ⟨⟨later, readings, last, x'⟩, hlater, he⟩ := Option.map_eq_some_iff.1 h
    cases he
    rw [List.map_append]
    exact .turn (Producer.execution_of_alone hnow) (ih hlater)
  | case3 =>
    cases h
    exact .rest ..

end EventCamera
