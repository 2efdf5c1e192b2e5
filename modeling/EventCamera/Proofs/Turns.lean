import EventCamera.Proofs.Ending
import EventCamera.Proofs.Lives

/-! # How a turn ends

Whatever its transport answers, a worker comes to another turn, to its end because it is no longer
wanted, to its end because the transport ended, or is taken down by a read. -/

namespace EventCamera

variable {dev : Device} {t : Transport}

/-- The states that a transport comes to when it is read again and again. -/
inductive Transport.Reaches (t : Transport) (source : t.State) : t.State → Prop where
  | refl : Reaches t source source
  | read {s} (room : Nat) : Reaches t source s → Reaches t source (t.read s room).2

/-- However often it is read, a transport never takes its reader down. -/
def Transport.NeverCrashes (t : Transport) (source : t.State) : Prop :=
  ∀ s, t.Reaches source s → ∀ room, (t.read s room).1 ≠ .crashed

theorem Source.crash_mem_of_read {s : Source} {room : Nat}
    (hcrash : .crash ∈ (s.read room).2.pieces) : .crash ∈ s.pieces := by
  have hsub : s.pieces.dropWhile (· == .interrupted) ⊆ s.pieces :=
    (List.dropWhile_sublist _).subset
  refine hsub ?_
  unfold read at hcrash
  cases hpieces : s.pieces.dropWhile (· == .interrupted) with
  | nil => simp [hpieces] at hcrash
  | cons piece rest =>
    refine List.mem_cons_of_mem _ ?_
    cases piece with
    | data bytes =>
      simp only [hpieces] at hcrash
      split at hcrash
      · exact hcrash
      · simpa using hcrash
    | unavailable | interrupted | lost | crash => simpa [hpieces] using hcrash

theorem Source.neverCrashes {source : Source} (hcrash : .crash ∉ source.pieces) :
    transport.NeverCrashes source := by
  intro s hs room
  have hs' : .crash ∉ s.pieces := by
    induction hs with
    | refl => exact hcrash
    | read room _ ih => exact fun h => ih (crash_mem_of_read h)
  intro hread
  refine hs' ((List.dropWhile_sublist (· == .interrupted)).subset ?_)
  simp only [transport, read] at hread
  split at hread
  · cases hread
  · cases hread
  · rename_i hpieces
    simp [hpieces]
  · cases hread
  · split at hread <;> cases hread

/-! ## One turn -/

namespace Worker

variable {w w' : Worker dev t} {steps : List Step} {turn : Turn dev t}

/-- A worker that is wanted asks how far the consumer is behind if it is paced, and then either
begins another turn or acts on a read. -/
theorem trace_turn (h : Trace w.turn steps turn) :
    (steps = [⟨.isRunning, false⟩] ∧ turn = .finished w) ∨
      ∃ asked rest, steps = asked ++ rest ∧ Routine asked ∧ handovers asked = [] ∧
        (rest = [] ∧ turn = .again w ∨ Trace (w.afterRead.respond w.reading) rest turn) := by
  have hproceed {backlog : Nat} {rest : List Step} (h : Trace (w.proceed backlog) rest turn) :
      rest = [] ∧ turn = .again w ∨ Trace (w.afterRead.respond w.reading) rest turn := by
    unfold proceed at h
    split at h
    · cases h
      exact .inl ⟨rfl, rfl⟩
    · exact .inr h
  rw [turn_eq] at h
  cases h with
  | @act _ _ running steps _ h =>
  cases running with
  | false =>
    cases h
    exact .inl ⟨rfl, rfl⟩
  | true =>
    right
    simp only [if_true] at h
    split at h
    · cases h with
      | @act _ _ backlog steps _ h =>
        exact ⟨[⟨.isRunning, true⟩, ⟨.level, backlog⟩], steps, rfl, by simp [Routine, Action.isRoutine],
          rfl, hproceed h⟩
    · exact ⟨[⟨.isRunning, true⟩], steps, rfl, by simp [Routine, Action.isRoutine], rfl, hproceed h⟩

/-- What receiving bytes leaves as it was, and that the totals of the decoder count what became of
the containers. -/
theorem trace_receive (hdev : dev.NeverStops) {bytes : List UInt8}
    (h : Trace (w.receive bytes) steps w') :
    Routine steps ∧ w'.transport = w.transport ∧
      w'.totals.transportEnded = w.totals.transportEnded ∧
      w'.decoder.collector.totals = w.decoder.collector.totals.count (handovers steps) := by
  unfold receive at h
  split at h
  rename_i whole carried hparts
  split at h
  · cases h
    exact ⟨List.forall_mem_nil _, rfl, rfl, rfl⟩
  · obtain ⟨⟨d, result⟩, steps, _, hdecode, hend, rfl⟩ := h.of_bind
    cases hend
    have hroutine := (Decoder.isRoutine_decode hdev _ _).of_trace hdecode
    obtain ⟨b', hb', rfl⟩ := Ledger.exists_trace { decoder := w.decoder } (c := .decode whole) hdecode
    obtain ⟨moves, -, hcourse, -⟩ := Ledger.trace_call hb'
    rw [List.append_nil]
    exact ⟨hroutine, rfl, rfl, hcourse.totals_eq⟩

/-- What is known of a worker that begins a turn, after the steps that it took since its start. -/
structure Ran (source : t.State) (w : Worker dev t) (steps : List Step) : Prop where
  routine : Routine steps
  reaches : t.Reaches source w.transport
  transportEnded_eq : w.totals.transportEnded = false
  totals_eq : w.decoder.collector.totals = CommitTotals.count {} (handovers steps)

theorem ran_start {settings : Settings} {source : t.State} {paced : Bool}
    (h : start dev settings t source paced = .ok w) : w.Ran source [] := by
  have hfresh := start_ok h
  refine ⟨List.forall_mem_nil _, hfresh.transport_eq ▸ .refl, by rw [hfresh.totals_eq], ?_⟩
  exact (Decoder.start_ok hfresh.decoder_eq).totals_eq

end Worker

/-- How a turn came to its end, after all the steps that the worker took. -/
inductive Came (source : t.State) : Turn dev t → List Step → Prop where
  | again {w steps} : w.Ran source steps → Came source (.again w) steps
  /-- The acquisition was no longer wanted. -/
  | unwanted {w before} : w.Ran source before →
      Came source (.finished w) (before ++ [⟨.isRunning, false⟩])
  /-- The transport had ended, and the worker wound up. -/
  | ended {w : Worker dev t} {before} : Routine before → w.totals.transportEnded →
      w.decoder.collector.totals = CommitTotals.count {} (handovers before) →
      Came source (.finished w) (before ++ closing)
  | crashed {s room steps} : t.Reaches source s → (t.read s room).1 = .crashed → Routine steps →
      Came source .crashed steps

namespace Worker

variable {source : t.State} {w w' : Worker dev t} {before steps : List Step} {turn : Turn dev t}

theorem Ran.append_routine (h : w.Ran source before) (hroutine : Routine steps)
    (hnone : handovers steps = []) : w.Ran source (before ++ steps) where
  routine := List.forall_mem_append.2 ⟨h.routine, hroutine⟩
  reaches := h.reaches
  transportEnded_eq := h.transportEnded_eq
  totals_eq := by rw [handovers_append, hnone, List.append_nil, h.totals_eq]

theorem Ran.afterRead (h : w.Ran source before) : w.afterRead.Ran source before :=
  ⟨h.routine, h.reaches.read _, h.transportEnded_eq, h.totals_eq⟩

theorem Ran.receive (hdev : dev.NeverStops) (h : w.Ran source before) {bytes : List UInt8}
    (htrace : Trace (w.receive bytes) steps w') : w'.Ran source (before ++ steps) := by
  obtain ⟨hroutine, htransport, hended, htotals⟩ := trace_receive hdev htrace
  refine ⟨List.forall_mem_append.2 ⟨h.routine, hroutine⟩, htransport ▸ h.reaches,
    hended.trans h.transportEnded_eq, ?_⟩
  rw [htotals, h.totals_eq, handovers_append, CommitTotals.count_append]

/-- A worker that winds up seals the rest, and then clears the flag, announces the end and closes
the queue. -/
theorem Ran.ending (h : w.Ran source before) (htrace : Trace w.ending steps turn) :
    Came source turn (before ++ steps) := by
  obtain ⟨w', steps, _, hwind, hdone, rfl⟩ := htrace.of_bind
  cases hdone
  obtain ⟨b', hcourse, rfl⟩ := trace_windUp hwind (b := { decoder := w.decoder }) rfl
  obtain ⟨flushing, rfl, hroutine, -⟩ := trace_windUp_steps hwind
  have hclosing : handovers closing = [] := rfl
  rw [List.append_nil, ← List.append_assoc]
  refine .ended (List.forall_mem_append.2 ⟨h.routine, hroutine⟩) rfl ?_
  change b'.decoder.collector.totals = _
  rw [hcourse.totals_eq, handovers_append, hclosing, List.append_nil, handovers_append,
    CommitTotals.count_append, ← h.totals_eq]

theorem Ran.respond (hdev : dev.NeverStops) (h : w.Ran source before)
    (htrace : Trace (w.afterRead.respond w.reading) steps turn) :
    Came source turn (before ++ steps) := by
  cases hreading : w.reading with
  | unavailable =>
    rw [hreading] at htrace
    cases htrace
    rw [List.append_nil]
    exact .again h.afterRead
  | crashed =>
    rw [hreading] at htrace
    cases htrace
    rw [List.append_nil]
    exact .crashed h.reaches hreading h.routine
  | lost =>
    rw [hreading] at htrace
    exact h.afterRead.ending htrace
  | data bytes =>
    rw [hreading] at htrace
    cases bytes with
    | nil => exact h.afterRead.ending htrace
    | cons byte bytes =>
      obtain ⟨w', steps, _, hreceive, hdone, rfl⟩ :=
        Trace.of_bind (p := w.afterRead.receive (byte :: bytes)) htrace
      cases hdone
      rw [List.append_nil]
      exact .again (h.afterRead.receive hdev hreceive)

/-- One turn, whatever the answers are. -/
theorem Ran.came (hdev : dev.NeverStops) (h : w.Ran source before)
    (htrace : Trace w.turn steps turn) : Came source turn (before ++ steps) := by
  rcases trace_turn htrace with
    ⟨rfl, rfl⟩ | ⟨asked, rest, rfl, hroutine, hnone, ⟨rfl, rfl⟩ | hrespond⟩
  · exact .unwanted h
  · rw [List.append_nil]
    exact .again (h.append_routine hroutine hnone)
  · rw [← List.append_assoc]
    exact (h.append_routine hroutine hnone).respond hdev hrespond

end Worker

/-- At its end, a worker has counted what became of its containers, and has announced the end if it
was that of the transport. -/
theorem Came.of_finished {source : t.State} {w : Worker dev t} {steps : List Step}
    (h : Came source (.finished w) steps) :
    w.total.commits = CommitTotals.count {} (handovers steps) ∧
      steps.countP Step.announces = if w.total.transportEnded then 1 else 0 := by
  cases h with
  | unwanted hran =>
    have hnone : handovers [⟨.isRunning, false⟩] = [] := rfl
    simp only [Worker.total, handovers_append, hnone, List.append_nil, hran.transportEnded_eq]
    refine ⟨hran.totals_eq, ?_⟩
    rw [List.countP_append, hran.routine.countP_announces]
    rfl
  | ended hroutine hended htotals =>
    have hnone : handovers closing = [] := rfl
    simp only [Worker.total, handovers_append, hnone, List.append_nil, hended]
    refine ⟨htotals, ?_⟩
    rw [List.countP_append, hroutine.countP_announces]
    rfl

/-! ## Turn after turn -/

/-- What is left of the current turn of a worker, after all the steps that it took. -/
inductive Lived (source : t.State) : Producer (Turn dev t) → List Step → Prop where
  | between {turn steps} : Came source turn steps → Lived source (.done turn) steps
  | within {w before during p} : Worker.Ran source w before → w.turn.After during p →
      Lived source p (before ++ during)

namespace Lived

variable {source : t.State} {steps : List Step}

theorem came (hdev : dev.NeverStops) {turn : Turn dev t} (h : Lived source (.done turn) steps) :
    Came source turn steps := by
  generalize hp : Producer.done turn = p at h
  cases h with
  | between hcame =>
    cases hp
    exact hcame
  | within hran hafter =>
    subst hp
    exact hran.came hdev hafter.trace

theorem next (hdev : dev.NeverStops) {turn : Turn dev t} (h : Lived source (.done turn) steps) :
    Lived source turn.next steps := by
  have hcame := h.came hdev
  cases turn with
  | again w =>
    cases hcame with
    | again hran => exact List.append_nil steps ▸ .within hran (.none w.turn)
  | finished | crashed => exact .between hcame

theorem snoc {action : Action} {next : action.Answer → Producer (Turn dev t)}
    (h : Lived source (.act action next) steps) (answer : action.Answer) :
    Lived source (next answer) (steps ++ [⟨action, answer⟩]) := by
  generalize hp : Producer.act action next = p at h
  cases h with
  | between => cases hp
  | within hran hafter =>
    subst hp
    rw [List.append_assoc]
    exact .within hran (hafter.snoc answer)

end Lived

end EventCamera
