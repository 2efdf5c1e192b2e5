import EventCamera.Proofs.Books
import EventCamera.Proofs.Conduct
import EventCamera.Proofs.Framing
import EventCamera.Proofs.Steady

/-! # How a worker comes to its end

A worker whose transport comes to an end works on, turn after turn, and then winds up: only then it
clears the flag, announces the end and closes the queue, in this order. -/

namespace EventCamera

/-! ## Transports that come to an end -/

def Reading.isEnd : Reading → Bool
  | .data bytes => bytes.isEmpty
  | .lost => true
  | .unavailable | .crashed => false

/-- However it is read, a transport comes to an end and never takes its reader down. -/
inductive Transport.Ends (t : Transport) : t.State → Prop where
  | intro {s} : (∀ room, 0 < room → (t.read s room).1 ≠ .crashed) →
      (∀ room, 0 < room → (t.read s room).1.isEnd = false → Ends t (t.read s room).2) → Ends t s

namespace Source

theorem reads_dropWhile_le (s : Source) (p : Piece → Bool) :
    reads { s with pieces := s.pieces.dropWhile p } ≤ s.reads := by
  obtain ⟨pieces, idle, exhausted⟩ := s
  induction pieces with
  | nil => exact Nat.le_refl _
  | cons piece pieces ih =>
    simp only [List.dropWhile_cons]
    split
    · exact Nat.le_trans ih (Nat.le_add_left _ _)
    · exact Nat.le_refl _

theorem reads_lt_of_cons (s : Source) (piece : Piece) (rest : List Piece) :
    reads { s with pieces := rest } < reads { s with pieces := piece :: rest } := by
  refine Nat.lt_add_of_pos_left ?_
  cases piece <;> exact Nat.succ_pos _

theorem ends {s : Source} (hidle : s.idle = false) (hcrash : .crash ∉ s.pieces) :
    transport.Ends s := by
  generalize hn : s.reads = n
  induction n using Nat.strongRecOn generalizing s with
  | ind n ih =>
    subst hn
    have hle := s.reads_dropWhile_le (· == .interrupted)
    have hcrash' : .crash ∉ s.pieces.dropWhile (· == .interrupted) :=
      fun h => hcrash ((List.dropWhile_sublist _).subset h)
    have hnext {pieces : List Piece} (hreads : reads { s with pieces } < s.reads)
        (hpieces : .crash ∉ pieces) : transport.Ends { s with pieces } :=
      ih _ hreads hidle hpieces rfl
    cases hl : s.pieces.dropWhile (· == .interrupted) with
    | nil =>
      refine .intro (fun room _ => ?_) (fun room _ hend => ?_)
      · simp [transport, read, hl, hidle]
      · simp [transport, read, hl, hidle, Reading.isEnd] at hend
    | cons piece rest =>
      rw [hl] at hle hcrash'
      have hlt := Nat.lt_of_lt_of_le (s.reads_lt_of_cons piece rest) hle
      obtain ⟨hpiece, hrest⟩ := not_or.1 (mt List.mem_cons.2 hcrash')
      refine .intro (fun room _ => ?_) (fun room hroom hend => ?_)
      · cases piece with
        | crash => exact absurd rfl hpiece
        | data | unavailable | interrupted | lost => simp [transport, read, hl]
      · simp only [transport, read, hl] at hend ⊢
        cases piece with
        | crash => exact absurd rfl hpiece
        | lost => cases hend
        | unavailable | interrupted => exact hnext hlt hrest
        | data bytes =>
          refine hnext ?_ ?_
          · split
            · exact hlt
            · rename_i hlater
              have hroom' : room < bytes.length := by simpa using hlater
              have hshorter : (bytes.drop room).length < bytes.length := by
                rw [List.length_drop]
                omega
              have hpart : reads { s with pieces := .data (bytes.drop room) :: rest } <
                  reads { s with pieces := .data bytes :: rest } :=
                Nat.add_lt_add_right (Nat.succ_lt_succ hshorter) _
              exact Nat.lt_of_lt_of_le hpart hle
          · split
            · exact hrest
            · simpa using hrest

end Source

/-! ## Working -/

variable {dev : Device} {t : Transport}

namespace Worker

/-- What the next read of a worker comes to. -/
def reading (w : Worker dev t) : Reading :=
  (t.read w.transport (w.transferSize - w.carried.length)).1

def afterRead (w : Worker dev t) : Worker dev t :=
  { w with transport := (t.read w.transport (w.transferSize - w.carried.length)).2 }

/-- What a worker does once it knows how far the consumer is behind. -/
def proceed (w : Worker dev t) (backlog : Nat) : Producer (Turn dev t) :=
  if 0 < backlog then .done (.again w) else w.afterRead.respond w.reading

theorem read_bind_respond (w : Worker dev t) :
    (w.read >>= fun r => r.2.respond r.1) =
      if w.paced then .act .level w.proceed else w.proceed 0 := by
  have hproceed (backlog : Nat) : ((if 0 < backlog then
        pure (Reading.unavailable, w)
      else
        pure (w.reading, w.afterRead) : Producer (Reading × Worker dev t)) >>=
      fun r => r.2.respond r.1) = w.proceed backlog := by
    unfold proceed
    split <;> rfl
  unfold read backlog
  split
  · exact congrArg (Producer.act .level) (funext hproceed)
  · exact hproceed 0

theorem turn_eq (w : Worker dev t) :
    w.turn = .act .isRunning fun running =>
      if running then (if w.paced then .act .level w.proceed else w.proceed 0)
      else .done (.finished w) := by
  rw [← read_bind_respond]
  rfl

end Worker

/-- A worker that has room for a read, and will not read for ever. -/
structure Worker.Fit (w : Worker dev t) : Prop where
  ends : t.Ends w.transport
  carried_lt : w.carried.length < dev.unitWidth
  width_le : dev.unitWidth ≤ w.transferSize

theorem Worker.Fit.room {w : Worker dev t} (h : w.Fit) : 0 < w.transferSize - w.carried.length := by
  have hcarried := h.carried_lt
  have hwidth := h.width_le
  omega

/-- A worker that was set up and has not read anything. A transfer has room for a unit at least. -/
structure Worker.Fresh (settings : Settings) (source : t.State) (paced : Bool) (w : Worker dev t) :
    Prop where
  decoder_eq : Decoder.start dev settings = .ok w.decoder
  transport_eq : w.transport = source
  transferSize_eq : w.transferSize = settings.transferSize
  paced_eq : w.paced = paced
  carried_eq : w.carried = []
  totals_eq : w.totals = {}
  width_pos : 0 < dev.unitWidth
  width_le : dev.unitWidth ≤ settings.transferSize

theorem Worker.start_ok {settings : Settings} {source : t.State} {paced : Bool} {w : Worker dev t}
    (h : Worker.start dev settings t source paced = .ok w) : w.Fresh settings source paced := by
  obtain ⟨_, hvalid, h⟩ := exists_of_bind_eq_ok h
  obtain ⟨_, hunit, h⟩ := exists_of_bind_eq_ok h
  obtain ⟨d, hdecoder, h⟩ := exists_of_bind_eq_ok h
  cases h
  have hstart : Decoder.start dev settings = .ok d := by
    cases hd : Decoder.start dev settings with
    | error e =>
      rw [hd] at hdecoder
      cases hdecoder
    | ok d' =>
      rw [hd] at hdecoder
      cases hdecoder
      rfl
  have hsize : 0 < settings.transferSize := by
    refine Nat.pos_of_ne_zero fun hzero => ?_
    unfold Settings.validate at hvalid
    rw [if_pos hzero] at hvalid
    split at hvalid
    · cases hvalid
    · split at hvalid <;> cases hvalid
  unfold Settings.validateUnitWidth at hunit
  split at hunit
  · cases hunit
  · rename_i hfits
    obtain ⟨hwidth, hmod⟩ := not_or.1 hfits
    have hdvd : dev.unitWidth ∣ settings.transferSize :=
      Nat.dvd_of_mod_eq_zero (Decidable.not_not.1 hmod)
    exact ⟨hstart, rfl, rfl, rfl, rfl, rfl, Nat.pos_of_ne_zero hwidth, Nat.le_of_dvd hsize hdvd⟩

theorem Worker.fit_start {settings : Settings} {source : t.State} {paced : Bool}
    {w : Worker dev t} (hends : t.Ends source)
    (h : Worker.start dev settings t source paced = .ok w) : w.Fit := by
  have hfresh := start_ok h
  refine ⟨hfresh.transport_eq ▸ hends, ?_, hfresh.transferSize_eq ▸ hfresh.width_le⟩
  rw [hfresh.carried_eq]
  exact hfresh.width_pos

/-- What a worker does from the end of its transport on. -/
def Worker.ending (w : Worker dev t) : Producer (Turn dev t) := do
  return .finished (← w.windUp)

/-- What is left of a turn in which the worker is still at work, as long as the acquisition is
wanted: it comes to another turn, or to the end of the transport. -/
inductive Working (fits : Worker dev t → Prop) : Producer (Turn dev t) → Prop where
  | again {w} : fits w → Working fits (.done (.again w))
  | act {action next} : action.isRoutine →
      (∀ answer, (Step.mk action answer).goesOn → Working fits (next answer)) →
      Working fits (.act action next)
  | ending (w : Worker dev t) : Working fits w.ending

namespace Working

variable {fits fits' : Worker dev t → Prop}

theorem bind {α : Type} {p : Producer α} {f : α → Producer (Turn dev t)} (hp : p.IsRoutine)
    (hf : ∀ a, Working fits (f a)) : Working fits (p >>= f) := by
  induction hp with
  | done result => exact hf result
  | act haction _ ih => exact .act haction fun answer _ => ih answer

theorem mono {p : Producer (Turn dev t)} (h : Working fits p) (himp : ∀ w, fits w → fits' w) :
    Working fits' p := by
  induction h with
  | again hw => exact .again (himp _ hw)
  | act haction _ ih => exact .act haction ih
  | ending w => exact .ending w

end Working

namespace Worker

variable {w : Worker dev t}

theorem respond_of_isEnd {reading : Reading} (h : reading.isEnd) : w.respond reading = w.ending := by
  cases reading with
  | data bytes =>
    cases bytes with
    | nil => rfl
    | cons => cases h
  | lost => rfl
  | unavailable | crashed => cases h

/-- After a read that is not the end, a worker is fit for another turn. -/
theorem Fit.respond (hdev : dev.NeverStops) (h : w.Fit) {reading : Reading}
    (hcrash : reading ≠ .crashed) (hend : reading.isEnd = false) :
    Working (fun w' => w'.Fit ∧ w'.transport = w.transport) (w.respond reading) := by
  cases reading with
  | lost => cases hend
  | crashed => exact absurd rfl hcrash
  | unavailable => exact .again ⟨h, rfl⟩
  | data bytes =>
    cases bytes with
    | nil => cases hend
    | cons byte bytes =>
      have hwidth : 0 < dev.unitWidth := Nat.lt_of_le_of_lt (Nat.zero_le _) h.carried_lt
      have hcarried : (partUnits dev.unitWidth (w.carried ++ byte :: bytes)).2.length <
          dev.unitWidth := length_partUnits_lt hwidth _
      change Working _ (w.receive (byte :: bytes) >>= fun w' => pure (.again w'))
      unfold Worker.receive
      split
      rename_i whole carried hparts
      rw [hparts] at hcarried
      split
      · exact .again ⟨⟨h.ends, hcarried, h.width_le⟩, rfl⟩
      · rw [bind_assoc]
        refine .bind (Decoder.isRoutine_decode hdev _ _) fun ⟨d, result⟩ => ?_
        exact .again ⟨⟨h.ends, hcarried, h.width_le⟩, rfl⟩

theorem Fit.afterRead (h : w.Fit) (hend : w.reading.isEnd = false) : w.afterRead.Fit := by
  obtain ⟨-, hnext⟩ := h.ends
  exact ⟨hnext _ h.room hend, h.carried_lt, h.width_le⟩

theorem Fit.reading_ne (h : w.Fit) : w.reading ≠ .crashed := by
  obtain ⟨hcrash, -⟩ := h.ends
  exact hcrash _ h.room

theorem Fit.proceed (hdev : dev.NeverStops) (h : w.Fit) (backlog : Nat) :
    Working Fit (w.proceed backlog) := by
  unfold Worker.proceed
  split
  · exact .again h
  · cases hend : w.reading.isEnd with
    | true =>
      rw [respond_of_isEnd hend]
      exact .ending _
    | false => exact ((h.afterRead hend).respond hdev h.reading_ne hend).mono fun _ => And.left

theorem Fit.turn (hdev : dev.NeverStops) (h : w.Fit) : Working Fit w.turn := by
  rw [turn_eq]
  refine .act rfl fun running hgoes => ?_
  obtain rfl : running = true := hgoes
  rw [if_pos rfl]
  split
  · exact .act rfl fun backlog _ => h.proceed hdev backlog
  · exact h.proceed hdev 0

end Worker

/-! ## Winding up -/

def Step.stops : Step → Bool
  | ⟨.stop, _⟩ => true
  | _ => false

def Step.announces : Step → Bool
  | ⟨.announceEnd, _⟩ => true
  | _ => false

def Step.closes : Step → Bool
  | ⟨.close, _⟩ => true
  | _ => false

theorem Step.flags_of_isRoutine {s : Step} (h : s.action.isRoutine) :
    s.stops = false ∧ s.announces = false ∧ s.closes = false := by
  obtain ⟨action, answer⟩ := s
  cases action with
  | isRunning | level | offer | deliver | report => exact ⟨rfl, rfl, rfl⟩
  | stop | announceEnd | close => cases h

theorem Routine.any_stops {steps : List Step} (h : Routine steps) :
    steps.any Step.stops = false :=
  List.any_eq_false.2 fun s hs => by simp [(Step.flags_of_isRoutine (h s hs)).1]

theorem Routine.countP_announces {steps : List Step} (h : Routine steps) :
    steps.countP Step.announces = 0 :=
  List.countP_eq_zero.2 fun s hs => by simp [(Step.flags_of_isRoutine (h s hs)).2.1]

theorem Routine.any_closes {steps : List Step} (h : Routine steps) :
    steps.any Step.closes = false :=
  List.any_eq_false.2 fun s hs => by simp [(Step.flags_of_isRoutine (h s hs)).2.2]

/-- The last steps of a worker, after it has sealed the rest: it clears the flag, announces the end,
and closes the queue. -/
def closing : List Step :=
  [⟨.stop, ()⟩, ⟨.announceEnd, ()⟩, ⟨.close, ()⟩]

namespace Worker

variable {w : Worker dev t} {steps : List Step}

/-- What is left of winding up, once the rest was sealed. -/
def leave (w : Worker dev t) (d : Decoder dev) : Producer (Worker dev t) := do
  Producer.perform .stop
  Producer.perform .announceEnd
  Producer.perform .close
  return { w with decoder := d, totals := { w.totals with transportEnded := true } }

theorem windUp_eq (w : Worker dev t) :
    w.windUp = w.decoder.flush >>= fun (d, _) => w.leave d := rfl

/-- Winding up seals the rest before its last steps. -/
theorem trace_windUp_steps {w' : Worker dev t} (h : Trace w.windUp steps w') :
    ∃ flushing, steps = flushing ++ closing ∧ Routine flushing ∧
      (handovers flushing).map Handover.sealed = w.decoder.settleRest.handedOn := by
  rw [windUp_eq] at h
  obtain ⟨⟨d, result⟩, flushing, after, hflush, hleave, rfl⟩ := h.of_bind
  refine ⟨flushing, ?_, w.decoder.isRoutine_flush.of_trace hflush, (Decoder.trace_flush hflush).1⟩
  obtain - | ⟨hleave⟩ := hleave
  obtain - | ⟨hleave⟩ := hleave
  obtain - | ⟨hleave⟩ := hleave
  cases hleave
  rfl

theorem exists_of_after_leave {d : Decoder dev} {rest : Producer (Worker dev t)}
    (h : (w.leave d).After steps rest) (hcloses : steps.any Step.closes) :
    ∃ w', rest = .done w' := by
  cases h with
  | none => cases hcloses
  | act h =>
    cases h with
    | none => cases hcloses
    | act h =>
      cases h with
      | none => cases hcloses
      | act h =>
        cases h
        exact ⟨_, rfl⟩

/-- Once a worker that winds up has closed the queue, nothing is left for it to do. -/
theorem finished_of_after_ending {rest : Producer (Turn dev t)} (h : w.ending.After steps rest)
    (hcloses : steps.any Step.closes) :
    ∃ w', rest = .done (.finished w') ∧ Trace w.windUp steps w' := by
  have hwind {left : Producer (Worker dev t)} (hleft : w.windUp.After steps left) :
      ∃ w', left = .done w' := by
    rw [windUp_eq] at hleft
    rcases hleft.of_bind with ⟨_, hflush, -⟩ | ⟨⟨d, result⟩, flushing, after, hflush, hleave, rfl⟩
    · rw [Routine.any_closes (w.decoder.isRoutine_flush.of_after hflush)] at hcloses
      cases hcloses
    · have hroutine := w.decoder.isRoutine_flush.of_trace hflush
      rw [List.any_append, Routine.any_closes hroutine, Bool.false_or] at hcloses
      exact exists_of_after_leave hleave hcloses
  rcases h.of_bind with ⟨left, hleft, rfl⟩ | ⟨w', before, after, htrace, hdone, rfl⟩
  · obtain ⟨w', rfl⟩ := hwind hleft
    exact ⟨w', rfl, hleft.trace⟩
  · cases hdone
    rw [List.append_nil]
    exact ⟨w', rfl, htrace⟩

/-- A worker that winds up comes to its end, and has closed the queue by then. -/
theorem closes_of_trace_ending {turn : Turn dev t} (h : Trace w.ending steps turn) :
    steps.any Step.closes := by
  obtain ⟨w', before, after, hwind, hdone, rfl⟩ := h.of_bind
  cases hdone
  obtain ⟨flushing, rfl, -, -⟩ := trace_windUp_steps hwind
  simp [closing, Step.closes]

end Worker

/-! ## What is left of an acquisition -/

/-- What is left of the current turn of a worker, after all of the steps that it took: it is at work,
or the transport has come to its end and it winds up. -/
inductive Underway (p : Producer (Turn dev t)) (steps : List Step) : Prop where
  | working : Working Worker.Fit p → Routine steps → Underway p steps
  | ending {w : Worker dev t} {before during} : steps = before ++ during → Routine before →
      w.ending.After during p → Underway p steps

theorem Worker.ending_ne_done (w : Worker dev t) (turn : Turn dev t) : w.ending ≠ .done turn := by
  intro h
  have hcloses := closes_of_trace_ending (h ▸ Trace.done turn : Trace w.ending [] turn)
  cases hcloses

theorem Working.of_done {fits : Worker dev t → Prop} {turn : Turn dev t}
    (h : Working fits (.done turn)) : ∃ w, turn = .again w ∧ fits w := by
  generalize hp : Producer.done turn = p at h
  cases h with
  | again hw =>
    cases hp
    exact ⟨_, rfl, hw⟩
  | act => cases hp
  | ending w => exact absurd hp.symm (w.ending_ne_done turn)

theorem Working.of_act {fits : Worker dev t → Prop} {action : Action}
    {next : action.Answer → Producer (Turn dev t)} (h : Working fits (.act action next)) :
    (action.isRoutine ∧
        ∀ answer, (Step.mk action answer).goesOn → Working fits (next answer)) ∨
      ∃ w : Worker dev t, .act action next = w.ending := by
  generalize hp : Producer.act action next = p at h
  cases h with
  | again hw => cases hp
  | act haction hnext =>
    cases hp
    exact .inl ⟨haction, hnext⟩
  | ending w => exact .inr ⟨w, rfl⟩

namespace Underway

variable {p : Producer (Turn dev t)} {steps : List Step}

theorem snoc {action : Action} {next : action.Answer → Producer (Turn dev t)}
    (h : Underway (.act action next) steps) {answer : action.Answer}
    (hgoes : steps.any Step.stops = false → (Step.mk action answer).goesOn) :
    Underway (next answer) (steps ++ [⟨action, answer⟩]) := by
  cases h with
  | working hworking hroutine =>
    rcases hworking.of_act with ⟨haction, hnext⟩ | ⟨w, hw⟩
    · refine .working (hnext answer (hgoes hroutine.any_stops)) ?_
      exact List.forall_mem_append.2 ⟨hroutine, List.forall_mem_singleton.2 haction⟩
    · exact .ending rfl hroutine ((hw ▸ Producer.After.none _ : w.ending.After [] _).snoc answer)
  | ending heq hroutine hafter =>
    exact .ending (by rw [heq, List.append_assoc]) hroutine (hafter.snoc answer)

/-- Once the queue is closed, the worker is at its end, after winding up. -/
theorem finished (h : Underway p steps) (hcloses : steps.any Step.closes) :
    ∃ (w w' : Worker dev t) (before during : List Step), steps = before ++ during ∧
      Routine before ∧ p = .done (.finished w') ∧ Trace w.windUp during w' := by
  cases h with
  | working _ hroutine =>
    rw [hroutine.any_closes] at hcloses
    cases hcloses
  | @ending w before during heq hroutine hafter =>
    rw [heq, List.any_append, hroutine.any_closes, Bool.false_or] at hcloses
    obtain ⟨w', hp, htrace⟩ := Worker.finished_of_after_ending hafter hcloses
    exact ⟨w, w', before, during, heq, hroutine, hp, htrace⟩

theorem of_done {turn : Turn dev t} (h : Underway (.done turn) steps) :
    (∃ w : Worker dev t, turn = .again w ∧ w.Fit) ∨ steps.any Step.closes := by
  cases h with
  | working hworking _ => exact .inl hworking.of_done
  | ending heq hroutine hafter =>
    right
    rw [heq, List.any_append, Worker.closes_of_trace_ending hafter.trace, Bool.or_true]

theorem next (hdev : dev.NeverStops) {turn : Turn dev t} (h : Underway (.done turn) steps) :
    Underway turn.next steps := by
  rcases h.of_done with ⟨w, rfl, hw⟩ | hcloses
  · cases h with
    | working _ hroutine => exact .working (hw.turn hdev) hroutine
    | ending heq hroutine hafter =>
      have hcloses := Worker.closes_of_trace_ending hafter.trace
      obtain ⟨w', hp, -⟩ := Worker.finished_of_after_ending hafter hcloses
      cases hp
  · obtain ⟨-, w', -, -, -, -, hp, -⟩ := h.finished hcloses
    cases hp
    exact h

end Underway

end EventCamera
