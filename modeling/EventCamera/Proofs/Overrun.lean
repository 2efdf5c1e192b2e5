import EventCamera.Proofs.Capture
import EventCamera.Proofs.Delivery
import EventCamera.Proofs.Pacing

/-! # Overruns

A paced worker reads only when the consumer has caught up with it. What one read seals may still be more
than the queue holds. The containers of events beyond that can be lost, and no others. -/

namespace EventCamera

variable {dev : Device} {t : Transport}

/-! ## Steady workers -/

namespace Worker

variable {w : Worker dev t} {steps : List Step}

/-- Whatever it is answered, a worker that winds up goes on once it has cleared the flag. -/
theorem goesOn_of_after_ending {action : Action} {next : action.Answer → Producer (Turn dev t)}
    (h : w.ending.After steps (.act action next)) (hstops : steps.any Step.stops)
    (answer : action.Answer) : (Step.mk action answer).goesOn := by
  rcases h.of_bind with ⟨left, hleft, heq⟩ | ⟨w', before, after, -, hdone, rfl⟩
  · rw [windUp_eq] at hleft
    rcases hleft.of_bind with ⟨_, hflush, -⟩ | ⟨⟨d, result⟩, flushing, after, hflush, hleave, rfl⟩
    · rw [Routine.any_stops (w.decoder.isRoutine_flush.of_after hflush)] at hstops
      cases hstops
    · have hroutine := w.decoder.isRoutine_flush.of_trace hflush
      rw [List.any_append, Routine.any_stops hroutine, Bool.false_or] at hstops
      cases hleave with
      | none => cases hstops
      | act hleave =>
        cases hleave with
        | none =>
          cases heq
          rfl
        | act hleave =>
          cases hleave with
          | none =>
            cases heq
            rfl
          | act hleave =>
            cases hleave
            cases heq
  · cases hdone

theorem isRoutine_receive (hdev : dev.NeverStops) (bytes : List UInt8) :
    (w.receive bytes).IsRoutine := by
  unfold receive
  split
  split
  · exact .done _
  · exact (Decoder.isRoutine_decode hdev _ _).bind fun _ => .done _

/-- A worker that seals something hands it on in routine steps, before anything else. -/
theorem exists_routine (hdev : dev.NeverStops) (hne : w.sealing ≠ []) :
    ∃ (α : Type) (p : Producer α) (rest : α → Producer (Turn dev t)),
      w.afterRead.respond w.reading = p >>= rest ∧ p.IsRoutine ∧ ∀ steps result,
        Trace p steps result → Steady steps → (handovers steps).map Handover.sealed = w.sealing := by
  have hending : ∃ (α : Type) (p : Producer α) (rest : α → Producer (Turn dev t)),
      w.afterRead.ending = p >>= rest ∧ p.IsRoutine ∧ ∀ steps result, Trace p steps result →
        Steady steps → (handovers steps).map Handover.sealed = w.decoder.settleRest.handedOn := by
    refine ⟨_, w.decoder.flush, fun r => w.afterRead.leave r.1 >>= fun w' => pure (.finished w'), ?_,
      w.decoder.isRoutine_flush, fun _ _ htrace _ => (Decoder.trace_flush htrace).1⟩
    exact bind_assoc ..
  unfold sealing at hne ⊢
  cases hreading : w.reading with
  | unavailable | crashed => simp only [hreading, ne_eq, not_true_eq_false] at hne
  | lost => exact hending
  | data bytes =>
    cases bytes with
    | nil => exact hending
    | cons byte bytes =>
      exact ⟨_, w.afterRead.receive (byte :: bytes), fun w' => pure (.again w'), rfl,
        isRoutine_receive hdev _, fun _ _ htrace => (sealed_of_receive htrace).2⟩

end Worker

/-! ## What can be lost -/

/-- The worker can come to begin a turn like this. -/
def Acquisition.Begins (a : Acquisition dev t) (w : Worker dev t) : Prop :=
  ∃ schedule, (a.meeting.follow schedule).turn = .done (.again w)

/-- One read of the worker can seal a container of events behind as many others as the queue holds. -/
def Acquisition.Overruns (a : Acquisition dev t) (sealed : Sealed) : Prop :=
  sealed.isReset = false ∧ ∃ (w : Worker dev t) (past : List Sealed), a.Begins w ∧
    past ++ [sealed] <+: w.sealing ∧ a.exchange.queue.capacity ≤ past.length

namespace Meeting

variable {m : Meeting dev t}

/-- The worker was handed a container back. -/
def Lost (m : Meeting dev t) (sealed : Sealed) : Prop :=
  ∃ deed ∈ m.deeds, deed.HandedBack sealed

theorem follow_append (m : Meeting dev t) (schedule later : List Party) :
    m.follow (schedule ++ later) = (m.follow schedule).follow later :=
  List.foldl_append

/-- Whatever the worker is answered, it goes on: no reset is abandoned. -/
theorem Sound.goesOn (h : m.Sound) {action : Action} {next : action.Answer → Producer (Turn dev t)}
    (hturn : m.turn = .act action next) {answer : action.Answer} {x : Exchange} {owed : Nat}
    (hbegin : m.exchange.begin action = some (answer, x, owed)) :
    (Step.mk action answer).goesOn := by
  cases hrunning : m.exchange.running with
  | true => exact (Exchange.begun hbegin).goesOn hrunning
  | false =>
    have hstops : m.steps.any Step.stops := by
      rw [h.leftBy.running_eq] at hrunning
      simpa using hrunning
    rcases hturn ▸ h.underway with ⟨-, hroutine⟩ | ⟨heq, hroutine, hafter⟩
    · rw [hroutine.any_stops] at hstops
      cases hstops
    · rw [heq, List.any_append, hroutine.any_stops, Bool.false_or] at hstops
      exact Worker.goesOn_of_after_ending hafter hstops answer

/-! ## Losing a container -/

/-- If a worker hands on a container of events behind as many others as there is room for, it can be
handed this one back: the consumer takes containers only to make room for resets. -/
theorem Sound.can_lose {α : Type} {p : Producer α} {rest : α → Producer (Turn dev t)}
    {sealed : Sealed} (room : Nat) (hdev : dev.NeverStops) (hdata : sealed.isReset = false)
    (hp : p.IsRoutine) (h : m.Sound) (hturn : m.turn = p >>= rest) (hrunning : m.exchange.running)
    (hroom : m.exchange.queue.capacity ≤ m.exchange.queue.items.length + room)
    (hbehind : ∀ steps result, Trace p steps result → Steady steps → ∃ past later,
      (handovers steps).map Handover.sealed = past ++ sealed :: later ∧ room ≤ past.length) :
    m.Can (·.Lost sealed) := by
  induction hp generalizing m room with
  | done result =>
    obtain ⟨past, later, heq, -⟩ := hbehind [] result (.done result) steady_nil
    simp at heq
  | @act action next haction _ ih =>
    replace hturn : m.turn = .act action fun answer => next answer >>= rest := hturn
    refine h.can_of_act hdev hturn fun answer m' hm' hturn' hacted => ?_
    by_cases hlost : (Step.mk action answer).handover? = some ⟨sealed, false⟩
    · obtain ⟨before, hdeeds⟩ := hacted.deeds_eq
      refine can_of_self ⟨⟨before, _⟩, ?_, hlost⟩
      rw [hdeeds]
      exact List.mem_append_right _ (List.mem_singleton_self _)
    have hgoes := hacted.goesOn hrunning
    have hrunning' : m'.exchange.running := by
      rw [h.leftBy.running_eq] at hrunning
      rw [hm'.leftBy.running_eq, hacted.steps_eq, List.any_append]
      simp [(Step.flags_of_isRoutine (s := ⟨action, answer⟩) haction).1, hrunning]
    refine ih answer (room - (handovers [⟨action, answer⟩]).length) hm' hturn' hrunning' ?_
      fun steps result htrace hsteady => ?_
    · have hcapacity := hacted.capacity_eq
      rcases hacted.filled with hfull | hlength
      · have hfull' : m'.exchange.queue.capacity ≤ m'.exchange.queue.items.length :=
          of_decide_eq_true hfull
        omega
      · omega
    · obtain ⟨past, later, heq, hle⟩ := hbehind (_ :: steps) result (.act htrace)
        (List.forall_mem_cons.2 ⟨hgoes, hsteady⟩)
      rw [← List.singleton_append, handovers_append, List.map_append] at heq
      cases hhand : (Step.mk action answer).handover? with
      | none =>
        rw [handovers_singleton_of_none hhand] at heq ⊢
        exact ⟨past, later, heq, Nat.le_trans (Nat.sub_le ..) hle⟩
      | some o =>
        rw [handovers_singleton_of_some hhand] at heq ⊢
        cases past with
        | nil =>
          -- there is no room left for it
          obtain ⟨sealed', accepted⟩ := o
          have hsealed : sealed' = sealed := (List.cons.inj heq).1
          subst hsealed
          cases sealed' with
          | reset => cases hdata
          | data c =>
            obtain rfl := Nat.le_zero.1 hle
            have hfull : m.exchange.queue.isFull := decide_eq_true hroom
            rw [hacted.refused hfull c accepted hhand] at hhand
            exact absurd hhand hlost
        | cons first past =>
          obtain ⟨-, heq⟩ := List.cons.inj heq
          refine ⟨past, later, heq, ?_⟩
          simp only [List.length_cons, List.length_nil] at hle ⊢
          omega

end Meeting

/-! ## Keeping pace with the consumer -/

/-- How a turn ended of a paced worker that reads a capture, after all of the steps that it took. -/
structure Acquisition.TurnEnded (a : Acquisition dev t) (source : t.State) (b : Ledger dev)
    (capture : List UInt8) (turn : Turn dev t) (steps : List Step) : Prop where
  paces : turn.Paces a.transferSize steps
  begins : ∀ w, turn = .again w → a.Begins w
  came : Came source turn steps
  consumes : turn.Consumes b capture steps

/-- What holds whenever a paced worker that reads a capture and a consumer meet, besides what always
holds. -/
structure Meeting.OnPace (a : Acquisition dev t) (source : t.State) (b : Ledger dev)
    (capture : List UInt8) (m : Meeting dev t) : Prop where
  sound : m.Sound
  steady : Steady m.steps
  following : Following (a.TurnEnded source b capture) m.turn m.steps
  caughtUp : m.exchange.CaughtUp m.steps
  capacity_eq : m.exchange.queue.capacity = a.exchange.queue.capacity
  overruns : ∀ sealed, m.Lost sealed → a.Overruns sealed

namespace Meeting.OnPace

variable {a : Acquisition dev t} {source : t.State} {b : Ledger dev} {capture : List UInt8}
  {m : Meeting dev t}

theorem start {settings : Settings} (hdelivers : t.Delivers source capture)
    (h : Acquisition.start dev settings t source true = .ok a) {d : Decoder dev}
    (hd : Decoder.start dev settings = .ok d) :
    a.meeting.OnPace a source { decoder := d } capture := by
  have hsound := Sound.start hdelivers.ends h
  obtain ⟨w, hw, h⟩ := exists_of_bind_eq_ok h
  cases h
  obtain rfl : w.decoder = d := Except.ok.inj ((Worker.start_ok hw).decoder_eq.symm.trans hd)
  refine ⟨hsound, steady_nil, .between ?_, Nat.zero_le _, rfl, fun _ hlost => ?_⟩
  · refine ⟨fun w' he => ?_, fun w' he => ?_, .again (Worker.ran_start hw),
      Worker.consumes_start hw hdelivers⟩
    · cases he
      exact Worker.paces_start hw
    · cases he
      exact ⟨[], rfl⟩
  · obtain ⟨_, hmem, -⟩ := hlost
    cases hmem

theorem increases_eq (h : m.OnPace a source b capture) (howed : m.owed = 0) :
    m.exchange.increases = (pushedBy m.steps).length := by
  have hincreases := h.sound.increases
  rwa [howed, Nat.add_zero] at hincreases

theorem decreases_le (h : m.OnPace a source b capture) :
    m.exchange.decreases ≤ (pushedBy m.steps).length := by
  have hinOrder := congrArg List.length h.sound.inOrder
  have hpushed : m.pushed = pushedBy m.steps := rfl
  rw [h.sound.decreases, ← hpushed, ← hinOrder]
  simp only [List.length_append]
  omega

theorem turnEnded (hdev : dev.NeverStops) (h : m.OnPace a source b capture)
    (hbegins : ∀ w, m.turn = .done (.again w) → a.Begins w) {turn : Turn dev t}
    (hturn : m.turn = .done turn) : a.TurnEnded source b capture turn m.steps := by
  have hfollowing : Following (a.TurnEnded source b capture) (.done turn) m.steps :=
    hturn ▸ h.following
  refine hfollowing.of_done fun w before during heq hended htrace => ?_
  have hpaces := hended.paces w rfl
  have hsteady := (steady_append.1 (heq ▸ h.steady : Steady (before ++ during))).2
  rw [← heq]
  refine {
    paces := fun w' hw' => hpaces.again (hw' ▸ htrace.after)
    begins := fun w' hw' => hbegins w' (hw' ▸ hturn)
    came := ?_
    consumes := hended.consumes.turn hdev hpaces.width_pos hpaces.room htrace hsteady }
  cases hended.came with
  | again hran => exact hran.came hdev htrace

theorem size_le (h : m.OnPace a source b capture) :
    m.exchange.queue.items.length ≤ (handovers (sinceRead m.steps)).length := by
  have hcaughtUp := h.caughtUp
  have hinOrder := congrArg List.length h.sound.inOrder
  have hdecreases := h.sound.decreases
  have hpushed := length_pushedBy_le (sinceRead m.steps)
  unfold Exchange.CaughtUp at hcaughtUp
  simp only [List.length_append, pushed] at hinOrder
  omega

/-- A container that a worker is handed back was sealed by one read, behind as many others as the queue
holds. -/
theorem overruns_of_handedBack (h : m.OnPace a source b capture) {action : Action}
    {next : action.Answer → Producer (Turn dev t)} (hturn : m.turn = .act action next)
    {answer : action.Answer} {x : Exchange} {owed : Nat}
    (hbegin : m.exchange.begin action = some (answer, x, owed)) {sealed : Sealed}
    (hback : (Step.mk action answer).handover? = some ⟨sealed, false⟩) : a.Overruns sealed := by
  have hdata : sealed.isReset = false := by
    have hgoes : Steady [⟨action, answer⟩] :=
      List.forall_mem_singleton.2 (h.sound.goesOn hturn hbegin)
    have hmem : ⟨sealed, false⟩ ∈ handovers [⟨action, answer⟩] := by
      rw [handovers_singleton_of_some hback]
      exact List.mem_singleton_self _
    refine Bool.eq_false_iff.2 fun hreset => ?_
    cases hgoes.accepted hmem hreset
  have hfull : m.exchange.queue.capacity ≤ m.exchange.queue.items.length :=
    of_decide_eq_true ((Exchange.begun hbegin).refused sealed hback)
  have hsize := h.size_le
  have hcapacity := h.capacity_eq
  have hfollowing : Following (a.TurnEnded source b capture) (.act action next) m.steps :=
    hturn ▸ h.following
  generalize hp : Producer.act action next = p at hfollowing
  generalize m.steps = steps at hfollowing hsize
  cases hfollowing with
  | between => cases hp
  | @within w before during _ hended hafter =>
    subst hp
    obtain ⟨past, rfl, hprefix⟩ :=
      Worker.exists_of_handover (hended.paces w rfl).paced hafter hback
    have hle := length_handovers_sinceRead_le before past
    refine ⟨hdata, w, _, hended.begins w rfl, hprefix, ?_⟩
    rw [List.length_map]
    omega

theorem act (hcount : 2 * (a.transferSize / dev.unitWidth) < 0x10000000000000000)
    (h : m.OnPace a source b capture) (howed : m.owed = 0) {action : Action}
    {next : action.Answer → Producer (Turn dev t)} (hturn : m.turn = .act action next)
    {answer : action.Answer} {x : Exchange} {owed : Nat}
    (hbegin : m.exchange.begin action = some (answer, x, owed)) :
    (m.act ⟨action, answer⟩ x (next answer) owed).OnPace a source b capture := by
  have hfollowing : Following (a.TurnEnded source b capture) (.act action next) m.steps :=
    hturn ▸ h.following
  have hsince := (hfollowing.mono fun _ _ => Acquisition.TurnEnded.paces).since_le
  have hincreases := h.increases_eq howed
  refine {
    sound := h.sound.act howed hturn hbegin
    steady := steps_act m .. ▸ steady_append.2
      ⟨h.steady, List.forall_mem_singleton.2 (h.sound.goesOn hturn hbegin)⟩
    following := steps_act m .. ▸ hfollowing.snoc answer
    caughtUp := steps_act m .. ▸ h.caughtUp.begin hincreases (hincreases ▸ h.decreases_le)
      (Nat.lt_of_le_of_lt hsince hcount) hbegin
    capacity_eq := (Exchange.capacity_of_begin hbegin).trans h.capacity_eq
    overruns := fun sealed hlost => ?_ }
  obtain ⟨deed, hdeed, hback⟩ := hlost
  rcases List.mem_append.1 hdeed with hdeed | hdeed
  · exact h.overruns sealed ⟨deed, hdeed, hback⟩
  · obtain rfl := List.mem_singleton.1 hdeed
    exact h.overruns_of_handedBack hturn hbegin hback

theorem work (hdev : dev.NeverStops)
    (hcount : 2 * (a.transferSize / dev.unitWidth) < 0x10000000000000000)
    (h : m.OnPace a source b capture) (hbegins : ∀ w, m.turn = .done (.again w) → a.Begins w) :
    m.work.OnPace a source b capture := by
  unfold Meeting.work
  split
  · rename_i howed
    exact { h with sound := h.sound.notify howed }
  · rename_i hturn
    exact { h with
      sound := h.sound.next hdev hturn
      following := .next (h.turnEnded hdev hbegins hturn) }
  · rename_i howed hturn
    split
    · rename_i hbegin
      exact h.act hcount howed hturn hbegin
    · exact h

theorem consume (h : m.OnPace a source b capture) : m.consume.OnPace a source b capture := by
  have hwaits := m.waits_consume
  exact {
    sound := h.sound.consume
    steady := hwaits.steps_eq ▸ h.steady
    following := hwaits.turn_eq ▸ hwaits.steps_eq ▸ h.following
    caughtUp := hwaits.steps_eq ▸ h.caughtUp.mono hwaits.decreases_le
    capacity_eq := hwaits.capacity_eq.trans h.capacity_eq
    overruns := fun sealed hlost => h.overruns sealed (by
      obtain ⟨deed, hdeed, hback⟩ := hlost
      exact ⟨deed, hwaits.deeds_eq ▸ hdeed, hback⟩) }

theorem follow (hdev : dev.NeverStops)
    (hcount : 2 * (a.transferSize / dev.unitWidth) < 0x10000000000000000)
    (h : a.meeting.OnPace a source b capture) (schedule : List Party) :
    (a.meeting.follow schedule).OnPace a source b capture := by
  induction schedule using List.reverseRecOn with
  | nil => exact h
  | append_singleton schedule party ih =>
    rw [follow_append]
    cases party with
    | worker => exact ih.work hdev hcount fun w hturn => ⟨schedule, hturn⟩
    | consumer => exact ih.consume

end Meeting.OnPace

/-! ## What can be lost is lost in some order -/

/-- A read that seals a container of events behind as many others as the queue holds can lose it. -/
theorem Acquisition.Overruns.can_lose (hdev : dev.NeverStops) {a : Acquisition dev t}
    {sealed : Sealed} (h : a.Overruns sealed)
    (hsound : ∀ schedule, (a.meeting.follow schedule).Sound)
    (hcapacity : ∀ schedule, (a.meeting.follow schedule).exchange.queue.capacity =
      a.exchange.queue.capacity) :
    ∃ schedule, (a.meeting.follow schedule).Lost sealed := by
  obtain ⟨hdata, w, past, ⟨schedule, hturn⟩, ⟨later, hsealing⟩, hle⟩ := h
  have hm := hsound schedule
  have hopen : ¬ (a.meeting.follow schedule).steps.any Step.closes := by
    intro hcloses
    obtain ⟨_, _, _, _, _, _, hdone, _⟩ := hm.underway.finished hcloses
    rw [hturn] at hdone
    cases hdone
  have hne : w.sealing ≠ [] := by
    rw [← hsealing]
    simp
  obtain ⟨α, p, rest, hrespond, hroutine, hsealed⟩ := w.exists_routine hdev hne
  have hcan : (a.meeting.follow schedule).Can (·.Lost sealed) := by
    refine hm.can_of_read hdev hturn hopen fun m' hm' hturn' hrunning hitems hcapacity' => ?_
    refine hm'.can_lose a.exchange.queue.capacity hdev hdata hroutine (hturn'.trans hrespond)
      hrunning ?_ fun steps result htrace hsteady => ?_
    · rw [hcapacity', hcapacity]
      exact Nat.le_add_left ..
    · refine ⟨past, later, ?_, hle⟩
      rw [hsealed steps result htrace hsteady, ← hsealing, List.append_assoc]
      rfl
  obtain ⟨more, hlost⟩ := hcan
  exact ⟨schedule ++ more, by rwa [Meeting.follow_append]⟩

/-! ## What comes of a replay -/

namespace Meeting

variable {m : Meeting dev t}

/-- How a meeting ended whose worker read a capture. -/
structure Outcome (m : Meeting dev t) (d : Decoder dev) (capture : List UInt8) (w : Worker dev t) :
    Prop where
  turn_eq : m.turn = .done (.finished w)
  /-- The consumer got the containers that were not handed back, in order. -/
  received_eq : m.received =
    ((handovers m.steps).filter Handover.accepted).map (·.sealed.container)
  commits_eq : w.total.commits = {
    published := m.received.length
    dropped := (handovers m.steps).countP fun o => !o.accepted }
  complete : (∀ sealed, ¬ m.Lost sealed) →
    m.received = (handovers m.steps).map (·.sealed.container) ∧
      w.total.commits = { published := m.received.length }
  /-- Unless a call failed, or the last flush, all the events that the capture adds were sealed. -/
  events_eq : w.total.decodeErrors = 0 → d.collector.Replaceable → ∀ k,
    sealedEvents ((handovers m.steps).map Handover.sealed) k =
      ((({ decoder := d } : Ledger dev).run
        ((Decoder.units dev.unitWidth capture).map .unit)).added k).map Added.stamped

theorem accepted_of_not_lost (h : ∀ sealed, ¬ m.Lost sealed) {o : Handover}
    (ho : o ∈ handovers m.steps) : o.accepted := by
  obtain ⟨sealed, accepted⟩ := o
  obtain ⟨s, hs, hhand⟩ := List.mem_filterMap.1 ho
  obtain ⟨deed, hdeed, rfl⟩ := List.mem_map.1 hs
  cases accepted with
  | true => rfl
  | false => exact absurd ⟨deed, hdeed, hhand⟩ (h sealed)

theorem OnPace.outcome {a : Acquisition dev t} {source : t.State} {d : Decoder dev}
    {settings : Settings} {capture : List UInt8} (hdev : dev.NeverStops)
    (hd : Decoder.start dev settings = .ok d)
    (h : m.OnPace a source { decoder := d } capture) (hgone : m.consumer = .gone) :
    ∃ w, m.Outcome d capture w := by
  have hcloses : m.steps.any Step.closes := by
    rw [← h.sound.leftBy.closed_eq]
    exact (h.sound.gone hgone).2
  obtain ⟨_, w, _, _, _, _, hturn, -⟩ := h.sound.underway.finished hcloses
  have hended := h.turnEnded hdev (fun w' he => by rw [hturn] at he; cases he) hturn
  have hthrough : w.Through { decoder := d } capture (handovers m.steps) := by
    cases hended.consumes with
    | finished hthrough => exact hthrough
  have hreceived := h.sound.received_eq hgone
  have hcommits : w.total.commits = {
      published := m.received.length
      dropped := (handovers m.steps).countP fun o => !o.accepted } := by
    have hdropped : ((handovers m.steps).countP fun o => !o.accepted && !o.sealed.isReset) =
        (handovers m.steps).countP fun o => !o.accepted := by
      refine List.countP_congr fun o ho => ?_
      cases hreset : o.sealed.isReset with
      | false => simp
      | true => simp [h.steady.accepted ho hreset]
    have habandoned : ((handovers m.steps).countP fun o => !o.accepted && o.sealed.isReset) = 0 := by
      refine List.countP_eq_zero.2 fun o ho hreset => ?_
      obtain ⟨hback, hreset⟩ := Bool.and_eq_true_iff.1 hreset
      rw [h.steady.accepted ho hreset] at hback
      cases hback
    rw [hended.came.of_finished.1, CommitTotals.count_eq, hdropped, habandoned, hreceived, pushed,
      pushedBy, List.length_map, List.countP_eq_length_filter]
    simp only [Nat.zero_add]
  refine ⟨w, hturn, hreceived, hcommits, fun hkept => ?_, fun herrors hreplaceable =>
    hthrough.sealedEvents_eq hd hreplaceable herrors⟩
  have hall : ∀ o ∈ handovers m.steps, o.accepted := fun _ => accepted_of_not_lost hkept
  have hnone : ((handovers m.steps).countP fun o => !o.accepted) = 0 :=
    List.countP_eq_zero.2 fun o ho => by simp [hall o ho]
  refine ⟨?_, hnone ▸ hcommits⟩
  rw [hreceived, pushed, pushedBy, List.filter_eq_self.2 hall]

end Meeting

/-- Which containers a replay of a capture can lose, and what comes of it. -/
structure Acquisition.Losses (a : Acquisition dev t) (d : Decoder dev) (capture : List UInt8) :
    Prop where
  /-- A container is lost in some order of acts exactly if one read can seal it behind as many others as
  the queue holds. -/
  lost_iff : ∀ sealed, (∃ schedule, (a.meeting.follow schedule).Lost sealed) ↔ a.Overruns sealed
  /-- A queue that holds two containers for each unit of a transfer is never overrun. -/
  fits : 2 * (a.transferSize / dev.unitWidth) ≤ a.exchange.queue.capacity →
    ∀ sealed, ¬ a.Overruns sealed
  canEnd : ∀ schedule, (a.meeting.follow schedule).CanEnd
  outcome : ∀ schedule, (a.meeting.follow schedule).consumer = .gone →
    ∃ w, (a.meeting.follow schedule).Outcome d capture w

theorem Acquisition.losses {settings : Settings} {source : t.State} {capture : List UInt8}
    {a : Acquisition dev t} {d : Decoder dev} (hdev : dev.NeverStops)
    (hdelivers : t.Delivers source capture)
    (h : Acquisition.start dev settings t source true = .ok a)
    (hd : Decoder.start dev settings = .ok d)
    (hcount : 2 * (a.transferSize / dev.unitWidth) < 0x10000000000000000) :
    a.Losses d capture := by
  have honPace (schedule : List Party) :
      (a.meeting.follow schedule).OnPace a source { decoder := d } capture :=
    (Meeting.OnPace.start hdelivers h hd).follow hdev hcount schedule
  refine {
    lost_iff := fun sealed => ⟨fun ⟨schedule, hlost⟩ => (honPace schedule).overruns sealed hlost,
      fun hoverruns => hoverruns.can_lose hdev (fun schedule => (honPace schedule).sound)
        fun schedule => (honPace schedule).capacity_eq⟩
    fits := fun hle sealed hoverruns => ?_
    canEnd := fun schedule => (honPace schedule).sound.canEnd hdev
    outcome := fun schedule hgone => (honPace schedule).outcome hdev hd hgone }
  obtain ⟨-, w, past, ⟨schedule, hturn⟩, hprefix, hfull⟩ := hoverruns
  have hended := (honPace schedule).turnEnded hdev
    (fun w' hw' => ⟨schedule, hw'⟩) hturn
  have hlength := (hended.paces w rfl).length_sealing_le
  have hpast := hprefix.length_le
  rw [List.length_append, List.length_singleton] at hpast
  omega

theorem Acquisition.transferSize_of_start {settings : Settings} {source : t.State} {paced : Bool}
    {a : Acquisition dev t} (h : Acquisition.start dev settings t source paced = .ok a) :
    a.transferSize = settings.transferSize := by
  obtain ⟨w, -, h⟩ := exists_of_bind_eq_ok h
  cases h
  rfl

/-- Whatever replay of whatever capture is asked for, and whatever memory there is: it can lose just
those containers of events that one read seals behind as many others as the queue holds, and if it loses
none, then its consumer gets them all. -/
theorem replay_losses {arguments : List String} {c : Command} {source : Source} {memory : Memory}
    {capture : List UInt8} {a : Acquisition c.device Source.transport} {d : Decoder c.device}
    (hrequest : CommandLine.request arguments = .ok (.replay c))
    (hdelivers : Source.transport.Delivers source capture)
    (h : Acquisition.start c.device { c.settings with memory } Source.transport source true = .ok a)
    (hd : Decoder.start c.device { c.settings with memory } = .ok d) : a.Losses d capture := by
  refine Acquisition.losses c.neverStops_device hdelivers h hd ?_
  rw [Acquisition.transferSize_of_start h]
  exact Command.sealing_lt hrequest

/-- One read of at most two units seals four containers at most, which the queue holds. -/
def roomy : List String :=
  ["in.raw", "out.csv", "--device", "dvs128", "--max-events", "1", "--chunk-size", "8",
    "--queue-capacity", "4"]

open Wire.Dvs128 in
def threePixels : List UInt8 :=
  encode (address 3 4 true) 100 0 ++ encode (address 3 5 true) 107 0 ++
    encode (address 9 4 false) 120 0

/-- Three containers come from two reads, and the consumer gets them all. -/
theorem replay_losses_dvs128 :
    ∃ c a d, CommandLine.request roomy = .ok (.replay c) ∧
      Source.transport.Delivers (.ofBytes 8192 threePixels) threePixels ∧
      Acquisition.start c.device c.settings Source.transport (.ofBytes 8192 threePixels) true = .ok a ∧
      Decoder.start c.device c.settings = .ok d ∧
      2 * (a.transferSize / c.device.unitWidth) ≤ a.exchange.queue.capacity ∧
      (a.meeting.follow sampleSchedule).consumer = .gone ∧
      (a.meeting.follow sampleSchedule).received.length = 3 ∧
      a.Losses d threePixels := by
  have hreplays : replays roomy (.ofBytes 8192 threePixels) fun {dev} a =>
      decide (2 * (a.transferSize / dev.unitWidth) ≤ a.exchange.queue.capacity) &&
        (a.meeting.follow sampleSchedule).consumer.isGone &&
        (a.meeting.follow sampleSchedule).received.length == 3 := by
    decide +kernel
  obtain ⟨c, a, hrequest, hstart, htest⟩ := exists_of_replays hreplays
  simp only [Bool.and_eq_true, beq_iff_eq, decide_eq_true_eq] at htest
  obtain ⟨⟨hfits, hgone⟩, hreceived⟩ := htest
  obtain ⟨w, hw, -⟩ := exists_of_bind_eq_ok hstart
  have hd := (Worker.start_ok hw).decoder_eq
  have hdelivers := Source.delivers_ofBytes 8192 threePixels
  exact ⟨c, a, w.decoder, hrequest, hdelivers, hstart, hd, hfits, Consumer.isGone_iff.1 hgone,
    hreceived, replay_losses hrequest hdelivers hstart hd⟩

open Wire.Dvs128 in
/-- Pixels of a DVS128, more than ten milliseconds after one another. -/
def sparsePixels : List UInt8 :=
  (List.replicate 66 (encode (address 3 4 true) 0 0 ++ encodeWrap)).flatten

def plain : List String :=
  ["in.raw", "out.csv", "--device", "dvs128"]

/-- The consumer takes nothing until the worker asks how far it is behind. -/
def belated : List Party :=
  .replicate 400 .worker ++ .replicate 128 .consumer ++ .replicate 40 .worker ++ [.consumer]

def Meeting.finishes (m : Meeting dev t) (test : Totals → Bool) : Bool :=
  match m.turn with
  | .done (.finished w) => test w.total
  | _ => false

theorem Meeting.exists_of_finishes {m : Meeting dev t} {test : Totals → Bool}
    (h : m.finishes test) : ∃ w, m.turn = .done (.finished w) ∧ test w.total := by
  unfold finishes at h
  split at h
  · rename_i w hturn
    exact ⟨w, hturn, h⟩
  · cases h

/-- Sixty-six containers come from the first read, which finds the queue empty. It holds sixty-four of
them, and the other two are dropped. -/
theorem not_lossless_sparse_dvs128 :
    ∃ c a w, CommandLine.request plain = .ok (.replay c) ∧
      Acquisition.start c.device c.settings Source.transport (.ofBytes 8192 sparsePixels) true =
        .ok a ∧
      (a.meeting.follow belated).consumer = .gone ∧
      (a.meeting.follow belated).turn = .done (.finished w) ∧
      w.total.commits = { published := 64, dropped := 2 } ∧ w.total.decodeErrors = 0 ∧
      (a.meeting.follow belated).received.length = 64 := by
  have hreplays : replays plain (.ofBytes 8192 sparsePixels) fun a =>
      (a.meeting.follow belated).consumer.isGone &&
        (a.meeting.follow belated).finishes (fun totals =>
          totals.commits == { published := 64, dropped := 2 } && totals.decodeErrors == 0) &&
        (a.meeting.follow belated).received.length == 64 := by
    decide +kernel
  obtain ⟨c, a, hrequest, hstart, htest⟩ := exists_of_replays hreplays
  simp only [Bool.and_eq_true, beq_iff_eq] at htest
  obtain ⟨⟨hgone, hfinishes⟩, hreceived⟩ := htest
  obtain ⟨w, hturn, htotals⟩ := Meeting.exists_of_finishes hfinishes
  simp only [Bool.and_eq_true, beq_iff_eq] at htotals
  exact ⟨c, a, w, hrequest, hstart, Consumer.isGone_iff.1 hgone, hturn, htotals.1, htotals.2,
    hreceived⟩

end EventCamera
