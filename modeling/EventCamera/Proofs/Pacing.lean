import EventCamera.Proofs.Aftermath
import EventCamera.Proofs.Options
import EventCamera.Proofs.Reading
import EventCamera.Replay
import Mathlib.Data.List.Induction

/-! # Pacing

Before each read a paced worker asks how many containers were added and not yet taken, and reads only
if there are none. The count follows the notifications, and these follow the changes of the queue, so
that it falls below zero at times. It is exact whenever the worker asks. -/

namespace EventCamera

/-! ## Since the last read -/

/-- The worker was told that there is no container to take, and reads. -/
def Step.letsThrough : Step → Bool
  | ⟨.level, backlog⟩ => backlog == 0
  | _ => false

/-- The steps since the last one that let a read through; all of them if none did. -/
def sinceRead (steps : List Step) : List Step :=
  steps.foldl (fun since s => if s.letsThrough then [] else since ++ [s]) []

theorem sinceRead_snoc (steps : List Step) (s : Step) :
    sinceRead (steps ++ [s]) = if s.letsThrough then [] else sinceRead steps ++ [s] :=
  List.foldl_append

theorem length_handovers_sinceRead_append_le (before later : List Step) :
    (handovers (sinceRead (before ++ later))).length ≤
      (handovers (sinceRead before)).length + (handovers later).length := by
  induction later using List.reverseRecOn with
  | nil =>
    rw [List.append_nil]
    exact Nat.le_add_right ..
  | append_singleton later s ih =>
    rw [← List.append_assoc, sinceRead_snoc]
    split
    · exact Nat.zero_le _
    · simp only [handovers_append, List.length_append]
      omega

theorem length_handovers_sinceRead_le (before later : List Step) :
    (handovers (sinceRead (before ++ ⟨.isRunning, true⟩ :: ⟨.level, 0⟩ :: later))).length ≤
      (handovers later).length := by
  have hsince : sinceRead (before ++ [⟨.isRunning, true⟩] ++ [⟨.level, 0⟩]) = [] :=
    sinceRead_snoc _ _
  have hle := length_handovers_sinceRead_append_le
    (before ++ [⟨.isRunning, true⟩] ++ [⟨.level, 0⟩]) later
  rw [hsince, handovers_nil, List.length_nil, Nat.zero_add, List.append_assoc,
    List.append_assoc] at hle
  exact hle

theorem length_pushedBy_le (steps : List Step) :
    (pushedBy steps).length ≤ (handovers steps).length := by
  rw [pushedBy, List.length_map]
  exact List.length_filter_le ..

/-! ## Turn after turn -/

variable {dev : Device} {t : Transport}

/-- What is left of the current turn of a worker, if something holds of how each turn ended and of the
steps taken until then. -/
inductive Following (Between : Turn dev t → List Step → Prop) :
    Producer (Turn dev t) → List Step → Prop where
  | between {turn : Turn dev t} {steps : List Step} :
      Between turn steps → Following Between (.done turn) steps
  | within {w : Worker dev t} {before during : List Step} {p : Producer (Turn dev t)} :
      Between (.again w) before → w.turn.After during p → Following Between p (before ++ during)

namespace Following

variable {Between : Turn dev t → List Step → Prop} {steps : List Step} {turn : Turn dev t}

theorem next (h : Between turn steps) : Following Between turn.next steps := by
  cases turn with
  | again w => exact List.append_nil steps ▸ .within h (.none w.turn)
  | finished | crashed => exact .between h

theorem snoc {action : Action} {next : action.Answer → Producer (Turn dev t)}
    (h : Following Between (.act action next) steps) (answer : action.Answer) :
    Following Between (next answer) (steps ++ [⟨action, answer⟩]) := by
  generalize hp : Producer.act action next = p at h
  cases h with
  | between => cases hp
  | within hbetween hafter =>
    subst hp
    rw [List.append_assoc]
    exact .within hbetween (hafter.snoc answer)

theorem of_done (h : Following Between (.done turn) steps)
    (hturn : ∀ w before during, before ++ during = steps → Between (.again w) before →
      Trace w.turn during turn → Between turn steps) : Between turn steps := by
  generalize hp : Producer.done turn = p at h
  cases h with
  | between hbetween =>
    cases hp
    exact hbetween
  | within hbetween hafter =>
    subst hp
    exact hturn _ _ _ rfl hbetween hafter.trace

theorem mono {Between' : Turn dev t → List Step → Prop} {p : Producer (Turn dev t)}
    (h : Following Between p steps) (himp : ∀ turn steps, Between turn steps → Between' turn steps) :
    Following Between' p steps := by
  cases h with
  | between hbetween => exact .between (himp _ _ hbetween)
  | within hbetween hafter => exact .within (himp _ _ hbetween) hafter

end Following

/-! ## Paced workers -/

namespace Worker

variable {w w' : Worker dev t} {size : Nat} {before during : List Step}
  {p : Producer (Turn dev t)}

/-- A paced worker between two turns, after all of its steps. Since the last read it has not handed on
more containers than there are for one. -/
structure Paces (size : Nat) (w : Worker dev t) (steps : List Step) : Prop where
  paced : w.paced
  transferSize_eq : w.transferSize = size
  carried_lt : w.carried.length < dev.unitWidth
  width_le : dev.unitWidth ≤ size
  since_le : (handovers (sinceRead steps)).length ≤ 2 * (size / dev.unitWidth)

theorem paces_start {settings : Settings} {source : t.State}
    (h : start dev settings t source true = .ok w) : w.Paces settings.transferSize [] := by
  have hfresh := start_ok h
  refine ⟨hfresh.paced_eq, hfresh.transferSize_eq, ?_, hfresh.width_le, Nat.zero_le _⟩
  rw [hfresh.carried_eq]
  exact hfresh.width_pos

/-- A turn of a paced worker begins with its question. Unless it is told that there is a container to
take, or that it is no longer wanted, it goes on with its read. -/
theorem after_turn_of_paced (hpaced : w.paced) (h : w.turn.After during p) :
    (handovers during = [] ∧ ∀ w', p = .done (.again w') → w' = w) ∨
      ∃ rest, during = ⟨.isRunning, true⟩ :: ⟨.level, 0⟩ :: rest ∧
        (w.afterRead.respond w.reading).After rest p := by
  rw [turn_eq] at h
  cases h with
  | none => exact .inl ⟨rfl, fun _ he => by cases he⟩
  | @act _ _ running _ _ h =>
    cases running with
    | false =>
      cases h
      exact .inl ⟨rfl, fun _ he => by cases he⟩
    | true =>
      simp only [if_true, if_pos hpaced] at h
      cases h with
      | none => exact .inl ⟨rfl, fun _ he => by cases he⟩
      | @act _ _ backlog rest _ h =>
        cases backlog with
        | zero => exact .inr ⟨rest, rfl, h⟩
        | succ backlog =>
          cases h
          exact .inl ⟨rfl, fun w' he => by cases he; rfl⟩

/-- What a paced worker hands on, it has sealed in a read of the same turn, which it began when it was
told that there is no container to take. -/
theorem exists_of_handover (hpaced : w.paced) {action : Action}
    {next : action.Answer → Producer (Turn dev t)} (h : w.turn.After during (.act action next))
    {answer : action.Answer} {o : Handover} (hhand : (Step.mk action answer).handover? = some o) :
    ∃ past, during = ⟨.isRunning, true⟩ :: ⟨.level, 0⟩ :: past ∧
      (handovers past).map Handover.sealed ++ [o.sealed] <+: w.sealing := by
  have hone := handovers_singleton_of_some hhand
  rcases after_turn_of_paced hpaced (h.snoc answer) with ⟨hnone, -⟩ | ⟨rest, heq, hrest⟩
  · rw [handovers_append, hone] at hnone
    simp at hnone
  · rcases List.eq_nil_or_concat rest with rfl | ⟨past, last, rfl⟩
    · have hlevel : Step.mk action answer = ⟨.level, 0⟩ := by
        simpa using congrArg List.getLast? heq
      rw [hlevel] at hhand
      cases hhand
    · rw [List.concat_eq_append] at heq hrest
      have hsplit : during ++ [⟨action, answer⟩] =
          (⟨.isRunning, true⟩ :: ⟨.level, 0⟩ :: past) ++ [last] := heq
      obtain ⟨rfl, hlast⟩ := List.append_inj' hsplit rfl
      cases hlast
      have hprefix := sealed_prefix_of_after hrest
      rw [handovers_append, hone, List.map_append] at hprefix
      exact ⟨past, rfl, hprefix⟩

namespace Paces

theorem room (h : w.Paces size before) : 0 < w.transferSize - w.carried.length := by
  have hcarried := h.carried_lt
  have hwidth := h.width_le
  rw [h.transferSize_eq]
  omega

theorem width_pos (h : w.Paces size before) : 0 < dev.unitWidth :=
  Nat.lt_of_le_of_lt (Nat.zero_le _) h.carried_lt

theorem length_sealing_le (h : w.Paces size before) :
    w.sealing.length ≤ 2 * (size / dev.unitWidth) := by
  have hcarried := h.carried_lt
  have hwidth := h.width_le
  rw [← h.transferSize_eq] at hwidth ⊢
  exact Worker.length_sealing_le h.width_pos (by omega) hwidth

/-- Within a turn too, the worker has not handed on more containers than there are for one read. -/
theorem since_le_of_after (h : w.Paces size before) (hafter : w.turn.After during p) :
    (handovers (sinceRead (before ++ during))).length ≤ 2 * (size / dev.unitWidth) := by
  rcases after_turn_of_paced h.paced hafter with ⟨hnone, -⟩ | ⟨rest, rfl, hrest⟩
  · refine Nat.le_trans (length_handovers_sinceRead_append_le before during) ?_
    rw [hnone]
    exact h.since_le
  · have hprefix := (sealed_prefix_of_after hrest).length_le
    rw [List.length_map] at hprefix
    exact Nat.le_trans (length_handovers_sinceRead_le before rest)
      (Nat.le_trans hprefix h.length_sealing_le)

theorem again (h : w.Paces size before) (hafter : w.turn.After during (.done (.again w'))) :
    w'.Paces size (before ++ during) := by
  have hsince := h.since_le_of_after hafter
  rcases after_turn_of_paced h.paced hafter with ⟨-, hsame⟩ | ⟨rest, rfl, hrest⟩
  · obtain rfl := hsame w' rfl
    exact ⟨h.paced, h.transferSize_eq, h.carried_lt, h.width_le, hsince⟩
  · have htrace := hrest.trace
    cases hreading : w.reading with
    | unavailable =>
      rw [hreading] at htrace
      cases htrace
      exact ⟨h.paced, h.transferSize_eq, h.carried_lt, h.width_le, hsince⟩
    | crashed =>
      rw [hreading] at htrace
      cases htrace
    | lost =>
      rw [hreading] at htrace
      obtain ⟨_, _, _, -, hdone, -⟩ := Trace.of_bind (p := w.afterRead.windUp) htrace
      cases hdone
    | data bytes =>
      rw [hreading] at htrace
      cases bytes with
      | nil =>
        obtain ⟨_, _, _, -, hdone, -⟩ := Trace.of_bind (p := w.afterRead.windUp) htrace
        cases hdone
      | cons byte bytes =>
        obtain ⟨w₁, steps, _, hreceive, hdone, -⟩ :=
          Trace.of_bind (p := w.afterRead.receive (byte :: bytes)) htrace
        cases hdone
        obtain ⟨hsize, hpaced, hcarried⟩ := received_of_trace hreceive
        refine ⟨hpaced.trans h.paced, hsize.trans h.transferSize_eq, ?_, h.width_le, hsince⟩
        rw [hcarried]
        exact length_partUnits_lt h.width_pos _

end Paces

end Worker

/-- The worker that goes on after a turn, if there is one, is a paced one. -/
def Turn.Paces (size : Nat) (turn : Turn dev t) (steps : List Step) : Prop :=
  ∀ w, turn = .again w → w.Paces size steps

namespace Following

variable {size : Nat} {steps : List Step}

/-- Within a turn, a paced worker has not handed on more containers since the last read than there are
for one. -/
theorem since_le {action : Action} {next : action.Answer → Producer (Turn dev t)}
    (h : Following (Turn.Paces size) (.act action next) steps) :
    (handovers (sinceRead steps)).length ≤ 2 * (size / dev.unitWidth) := by
  generalize hp : Producer.act action next = p at h
  cases h with
  | between => cases hp
  | within hpaces hafter => exact (hpaces _ rfl).since_le_of_after hafter

theorem paces {turn : Turn dev t} (h : Following (Turn.Paces size) (.done turn) steps) :
    turn.Paces size steps :=
  h.of_done fun _ _ _ heq hpaces htrace _ hturn =>
    heq ▸ (hpaces _ rfl).again (hturn ▸ htrace.after)

end Following

/-! ## The counter -/

namespace Exchange

variable {x x' : Exchange} {steps : List Step}

theorem level_add_decreases (hle : x.decreases ≤ x.increases)
    (hlt : x.increases < x.decreases + 0x10000000000000000) :
    x.level + x.decreases = x.increases := by
  have hmod : ((x.increases : Int) - x.decreases) % 0x10000000000000000 =
      x.increases - x.decreases := Int.emod_eq_of_lt (by omega) (by omega)
  rw [level, hmod]
  omega

/-- Of the containers that were added before the last read, every one was taken, and its removal was
notified. -/
def CaughtUp (x : Exchange) (steps : List Step) : Prop :=
  (pushedBy steps).length ≤ x.decreases + (pushedBy (sinceRead steps)).length

/-- If consumers had caught up with the worker before its last read, and what it has handed on since is
not too much to count, then the counter is exact once the worker has given its notifications. -/
theorem CaughtUp.level_eq (h : x.CaughtUp steps) (hincreases : x.increases = (pushedBy steps).length)
    (hle : x.decreases ≤ x.increases)
    (hsince : (handovers (sinceRead steps)).length < 0x10000000000000000) :
    x.level + x.decreases = (pushedBy steps).length := by
  have hpushed := length_pushedBy_le (sinceRead steps)
  unfold CaughtUp at h
  rw [level_add_decreases hle (by omega), hincreases]

/-- A worker only reads when consumers have caught up with it again. -/
theorem CaughtUp.begin (h : x.CaughtUp steps) (hincreases : x.increases = (pushedBy steps).length)
    (hle : x.decreases ≤ x.increases)
    (hsince : (handovers (sinceRead steps)).length < 0x10000000000000000)
    {action : Action} {answer : action.Answer} {owed : Nat}
    (hbegin : x.begin action = some (answer, x', owed)) :
    x'.CaughtUp (steps ++ [⟨action, answer⟩]) := by
  have hdecreases := (begun hbegin).decreases
  have hlevel := h.level_eq hincreases hle hsince
  unfold CaughtUp at h ⊢
  rw [sinceRead_snoc, pushedBy_append, List.length_append, hdecreases]
  split
  · rename_i hthrough
    cases action with
    | level =>
      have hnone : pushedBy [⟨.level, answer⟩] = [] := pushedBy_of_handover?_eq_none rfl
      have hanswer : x.level = answer := by cases hbegin; rfl
      have hzero : x.level = 0 := hanswer.trans (beq_iff_eq.1 hthrough)
      have hempty : (pushedBy []).length = 0 := rfl
      rw [hnone, List.length_nil, hempty]
      omega
    | isRunning | offer | deliver | report | stop | announceEnd | close => cases hthrough
  · rw [pushedBy_append, List.length_append]
    omega

theorem CaughtUp.mono (h : x.CaughtUp steps) (hle : x.decreases ≤ x'.decreases) :
    x'.CaughtUp steps :=
  Nat.le_trans h (Nat.add_le_add_right hle _)

end Exchange

namespace Service

variable {m m' : Service dev t} {source : t.State} {size : Nat}

structure OthersActed (m m' : Service dev t) : Prop where
  turn_eq : m'.turn = m.turn
  steps_eq : m'.steps = m.steps
  decreases_le : m.exchange.decreases ≤ m'.exchange.decreases

theorem OthersActed.refl (m : Service dev t) : m.OthersActed m :=
  ⟨rfl, rfl, Nat.le_refl _⟩

theorem othersActed_pop (m : Service dev t) (waiting : Bool) : m.OthersActed (m.pop waiting) := by
  unfold pop
  split
  · split
    · rename_i hattempt
      cases Operation.attempted hattempt
      exact ⟨rfl, rfl, Nat.le_refl _⟩
    · exact .refl m
  · exact .refl m

theorem othersActed_notify (m : Service dev t) : m.OthersActed m.notify := by
  unfold notify
  split
  · exact ⟨rfl, rfl, Nat.le_succ _⟩
  · exact .refl m

theorem othersActed_stopping (m : Service dev t) : m.OthersActed m.stopping := by
  unfold stopping
  split
  · split
    · exact ⟨rfl, rfl, Nat.le_refl _⟩
    · exact .refl m
  · exact ⟨rfl, rfl, Nat.le_refl _⟩
  · split
    · unfold join
      split <;> exact ⟨rfl, rfl, Nat.le_refl _⟩
    · exact .refl m
  · exact ⟨rfl, rfl, Nat.le_succ _⟩
  · exact ⟨rfl, rfl, Nat.le_refl _⟩
  · exact ⟨rfl, rfl, Nat.le_refl _⟩

/-- The call that stops an acquisition removes no container before the worker has come to its end. -/
theorem Halted.drained_eq_of_act {halt : Halt} {action : Action}
    {next : action.Answer → Producer (Turn dev t)} (h : m.Halted halt)
    (hturn : m.turn = .act action next) : m.drained = [] := by
  cases h with
  | uncalled hdrained | cleared hdrained | waiting hdrained => exact hdrained
  | draining hend | stopped hend =>
    have hdone := hend.turn_eq
    rw [hturn] at hdone
    cases hdone
  | crashed hdone _ hdrained => exact hdrained

/-- What holds at any time of an acquisition with a paced worker, besides what always holds. -/
structure OnPace (size : Nat) (source : t.State) (m : Service dev t) : Prop where
  sound : m.Sound source
  following : Following (Turn.Paces size) m.turn m.steps
  caughtUp : m.exchange.CaughtUp m.steps

theorem OthersActed.onPace (h : m.OthersActed m') (hsound : m'.Sound source) (hm : m.OnPace size source) :
    m'.OnPace size source where
  sound := hsound
  following := h.turn_eq ▸ h.steps_eq ▸ hm.following
  caughtUp := h.steps_eq ▸ hm.caughtUp.mono h.decreases_le

namespace OnPace

theorem start {settings : Settings} {a : Acquisition dev t}
    (h : Acquisition.start dev settings t source true = .ok a) :
    a.service.OnPace settings.transferSize source := by
  refine ⟨.start h, ?_, Nat.zero_le _⟩
  obtain ⟨w, hw, h⟩ := exists_of_bind_eq_ok h
  cases h
  exact .between fun w' he => by cases he; exact Worker.paces_start hw

theorem decreases_le (h : m.Sound source) (howed : m.owed = 0) :
    m.exchange.decreases ≤ m.exchange.increases := by
  have hincreases := h.increases_eq
  have hdecreases := h.decreases_eq
  have hinOrder := congrArg List.length h.inOrder
  simp only [List.length_append] at hinOrder hdecreases
  omega

theorem increases_eq (h : m.Sound source) (howed : m.owed = 0) :
    m.exchange.increases = (pushedBy m.steps).length := by
  have hincreases := h.increases_eq
  rwa [howed, Nat.add_zero] at hincreases

theorem work (hdev : dev.NeverStops) (hcount : 2 * (size / dev.unitWidth) < 0x10000000000000000)
    (h : m.OnPace size source) : m.work.OnPace size source := by
  refine ⟨h.sound.work hdev, ?_, ?_⟩
  all_goals unfold Service.work
  · split
    · exact h.following
    · rename_i hturn
      exact .next (hturn ▸ h.following : Following _ (.done _) m.steps).paces
    · rename_i hturn
      split
      · exact (hturn ▸ h.following : Following _ (.act _ _) m.steps).snoc _
      · exact hturn ▸ h.following
  · split
    · exact h.caughtUp
    · exact h.caughtUp
    · rename_i howed hturn
      split
      · rename_i hbegin
        have hsince := (hturn ▸ h.following : Following _ (.act _ _) m.steps).since_le
        exact h.caughtUp.begin (increases_eq h.sound howed) (decreases_le h.sound howed)
          (Nat.lt_of_le_of_lt hsince hcount) hbegin
      · exact h.caughtUp

theorem step (hdev : dev.NeverStops) (hcount : 2 * (size / dev.unitWidth) < 0x10000000000000000)
    (h : m.OnPace size source) (act : Act) : (m.step act).OnPace size source := by
  cases act with
  | work => exact h.work hdev hcount
  | pop waiting => exact (m.othersActed_pop waiting).onPace (h.sound.pop waiting) h
  | notify => exact m.othersActed_notify.onPace h.sound.notify h
  | stop => exact m.othersActed_stopping.onPace h.sound.stopping h

theorem follow (hdev : dev.NeverStops) (hcount : 2 * (size / dev.unitWidth) < 0x10000000000000000)
    (h : m.OnPace size source) (schedule : List Act) : (m.follow schedule).OnPace size source := by
  induction schedule generalizing m with
  | nil => exact h
  | cons act schedule ih => exact ih (h.step hdev hcount act)

end OnPace

def asksLevel (m : Service dev t) : Bool :=
  match m.owed, m.turn with
  | 0, .act .level _ => true
  | _, _ => false

theorem asksLevel_iff : m.asksLevel ↔ m.owed = 0 ∧ ∃ next, m.turn = .act .level next := by
  unfold asksLevel
  split
  · rename_i howed hturn
    exact ⟨fun _ => ⟨howed, _, hturn⟩, fun _ => rfl⟩
  · rename_i hother
    exact ⟨nofun, fun ⟨howed, next, hturn⟩ => (hother next howed hturn).elim⟩

/-- How a worker keeps pace with consumers. -/
structure Paced (m : Service dev t) : Prop where
  /-- In every turn the worker reads the counter before it reads its transport, and this only if the
  counter is zero. -/
  asks : ∀ w : Worker dev t, m.turn = .done (.again w) → w.turn = .act .isRunning fun running =>
    if running then .act .level w.proceed else .done (.finished w)
  /-- The counter is exact when it is read, as a natural number. -/
  exact : m.asksLevel → m.exchange.level + m.exchange.decreases = m.pushed.length
  size_le : m.asksLevel → m.exchange.queue.size ≤ m.exchange.level
  /-- If it is zero then, the queue is empty and all that was added was taken. -/
  caughtUp : m.asksLevel → m.exchange.level = 0 →
    m.exchange.queue.items = [] ∧ m.popped = m.pushed

theorem OnPace.paced (hcount : 2 * (size / dev.unitWidth) < 0x10000000000000000)
    (h : m.OnPace size source) : m.Paced := by
  have hexact (hasks : m.asksLevel) :
      m.exchange.level + m.exchange.decreases = m.pushed.length := by
    obtain ⟨howed, next, hturn⟩ := asksLevel_iff.1 hasks
    have hsince := (hturn ▸ h.following : Following _ (.act _ _) m.steps).since_le
    exact h.caughtUp.level_eq (increases_eq h.sound howed) (decreases_le h.sound howed)
      (Nat.lt_of_le_of_lt hsince hcount)
  have hdecreases := h.sound.decreases_eq
  have hinOrder := h.sound.inOrder
  have hlength := congrArg List.length hinOrder
  simp only [List.length_append] at hdecreases hlength
  refine {
    asks := fun w hturn => ?_
    exact := hexact
    size_le := fun hasks => ?_
    caughtUp := fun hasks hzero => ?_ }
  · have hpaces := (hturn ▸ h.following : Following _ (.done (.again w)) m.steps).paces w rfl
    rw [w.turn_eq, if_pos hpaces.paced]
  · have hlevel := hexact hasks
    change m.exchange.queue.items.length ≤ _
    omega
  · have hlevel := hexact hasks
    obtain ⟨-, next, hturn⟩ := asksLevel_iff.1 hasks
    have hitems : m.exchange.queue.items = [] := List.length_eq_zero_iff.1 (by omega)
    have hdrained : m.drained = [] := h.sound.halted.drained_eq_of_act hturn
    rw [hitems, hdrained, List.append_nil, List.append_nil] at hinOrder
    exact ⟨hitems, hinOrder⟩

end Service

/-! ## Replays -/

namespace Command

theorem neverStops_device (c : Command) : c.device.NeverStops := by
  unfold device
  split
  · exact fun _ _ => rfl
  · intro s unit
    simp only [Wire.DvXplorer.device, Wire.DvXplorer.classify]
    split <;> rfl

theorem two_le_unitWidth (c : Command) : 2 ≤ c.device.unitWidth := by
  unfold device
  split
  · exact Nat.le_of_ble_eq_true rfl
  · exact Nat.le_refl 2

theorem sealing_lt {arguments : List String} {c : Command}
    (h : CommandLine.request arguments = .ok (.replay c)) :
    2 * (c.settings.transferSize / c.device.unitWidth) < 0x10000000000000000 := by
  have hsize := (CommandLine.counted_of_request h).transferSize_lt
  have hhalf : c.settings.transferSize / c.device.unitWidth ≤ c.settings.transferSize / 2 :=
    Nat.div_le_div_left c.two_le_unitWidth Nat.two_pos
  omega

end Command

/-- Whatever replay is asked for, and in whatever order its worker and its consumer act: when the
worker reads the counter, it is exact. -/
theorem service_paced {arguments : List String} {c : Command} {source : Source}
    {a : Acquisition c.device Source.transport}
    (hrequest : CommandLine.request arguments = .ok (.replay c))
    (h : Acquisition.start c.device c.settings Source.transport source true = .ok a)
    (schedule : List Service.Act) : (a.service.follow schedule).Paced :=
  ((Service.OnPace.start h).follow c.neverStops_device (Command.sealing_lt hrequest) schedule).paced
    (Command.sealing_lt hrequest)

def replays (arguments : List String) (source : Source)
    (test : {dev : Device} → Acquisition dev Source.transport → Bool) : Bool :=
  match CommandLine.request arguments with
  | .ok (.replay c) =>
    match Acquisition.start c.device c.settings Source.transport source true with
    | .ok a => test a
    | .error _ => false
  | _ => false

theorem exists_of_replays {arguments : List String} {source : Source}
    {test : {dev : Device} → Acquisition dev Source.transport → Bool}
    (h : replays arguments source test) : ∃ c a,
      CommandLine.request arguments = .ok (.replay c) ∧
      Acquisition.start c.device c.settings Source.transport source true = .ok a ∧ test a := by
  unfold replays at h
  split at h
  · rename_i c hrequest
    split at h
    · rename_i a hstart
      exact ⟨c, a, hrequest, hstart, h⟩
    · cases h
  · cases h

open Wire.Dvs128 in
def twoPixels : Source where
  pieces := [.data (encode (address 3 4 true) 100 0 ++ encode (address 3 5 true) 107 0)]

def singly : List String :=
  ["in.raw", "out.csv", "--device", "dvs128", "--max-events", "1"]

/-- The first container is taken, and this is notified, before the worker notifies that it was added. -/
def overtaking : List Service.Act :=
  .replicate 5 .work ++ [.pop true, .notify]

/-- The worker is told that a container is left. The consumer takes it before the worker asks again. -/
def overtaken : List Service.Act :=
  overtaking ++ .replicate 8 .work ++ [.pop true, .notify] ++ .replicate 2 .work

/-- A notification overtakes another, so that the counter wraps around. When the worker reads it again,
two containers were added and two were taken, and it is zero. -/
theorem service_paced_dvs128 :
    ∃ c a, CommandLine.request singly = .ok (.replay c) ∧
      Acquisition.start c.device c.settings Source.transport twoPixels true = .ok a ∧
      (a.service.follow overtaking).exchange.level = 0xffffffffffffffff ∧
      (a.service.follow overtaken).asksLevel ∧
      (a.service.follow overtaken).exchange.level = 0 ∧
      (a.service.follow overtaken).popped.length = 2 ∧
      (a.service.follow overtaken).Paced := by
  have hreplays : replays singly twoPixels fun a =>
      (a.service.follow overtaking).exchange.level == 0xffffffffffffffff &&
        (a.service.follow overtaken).asksLevel && (a.service.follow overtaken).exchange.level == 0 &&
        (a.service.follow overtaken).popped.length == 2 := by
    decide +kernel
  obtain ⟨c, a, hrequest, hstart, htest⟩ := exists_of_replays hreplays
  simp only [Bool.and_eq_true, beq_iff_eq] at htest
  obtain ⟨⟨⟨hwraps, hasks⟩, hlevel⟩, hpopped⟩ := htest
  exact ⟨c, a, hrequest, hstart, hwraps, hasks, hlevel, hpopped,
    service_paced hrequest hstart overtaken⟩

end EventCamera
