import EventCamera.Proofs.Ending
import EventCamera.Proofs.Operations

/-! # A worker and a consumer

A worker and a consumer that waits for containers act in any order, one at a time. The change that a
push or a pop makes to the queue, and the notification of it, are two acts. -/

namespace EventCamera

/-! ## The acts of the worker -/

def Answer.isAdded : Answer → Bool
  | .added => true
  | .handedBack _ | .taken _ | .nothing | .closed | .drained _ => false

/-- What an action of the worker is answered and what it leaves, before any notification, and how
many notifications are to follow. -/
def Exchange.begin (x : Exchange) : (action : Action) → Option (action.Answer × Exchange × Nat)
  | .isRunning => some (x.running, x, 0)
  | .level => some (x.level, x, 0)
  | .offer c => ((Operation.offer c).attempt x).map fun a => (a.answer.isAdded, a.exchange, a.owed)
  | .deliver c =>
    ((Operation.deliver c).attempt x).map fun a => (a.answer.isAdded, a.exchange, a.owed)
  | .report _ => some ((), x, 0)
  | .stop => some ((), x.setRunning false, 0)
  | .announceEnd => some ((), x.notifyShutdown, 0)
  | .close => some ((), x.close, 0)

/-- To begin an action and then to notify is to perform it. -/
theorem Exchange.perform_eq_begin (x : Exchange) (action : Action) :
    x.perform action =
      (x.begin action).map fun (answer, x, owed) => (answer, owed.repeat notifyIncrease x) := by
  cases action with
  | offer c =>
    simp only [perform, begin, offer, Operation.attempt]
    by_cases hfull : x.queue.isFull <;> simp [hfull, Answer.isAdded] <;> rfl
  | deliver c =>
    simp only [perform, begin, deliver, Operation.attempt]
    by_cases hfull : x.queue.isFull <;> by_cases hrunning : x.running <;>
      simp [hfull, hrunning, Answer.isAdded] <;> rfl
  | isRunning | level | report | stop | announceEnd | close => rfl

/-- Only a container that must not be lost waits, if there is no room for it and while the flag is
set. -/
theorem Exchange.waits_of_begin {x : Exchange} {action : Action} (h : x.begin action = none) :
    (∃ c, action = .deliver c) ∧ x.queue.isFull ∧ x.running := by
  cases action with
  | deliver c =>
    rcases Operation.waits (Option.map_eq_none_iff.1 h) with ⟨_, -, hfull, hrunning⟩ | ⟨he, -⟩
    · exact ⟨⟨c, rfl⟩, hfull, hrunning⟩
    · cases he
  | isRunning | level | offer | report | stop | announceEnd | close => cases h

/-- A container of events does not wait for room. -/
theorem Exchange.begin_offer_of_isFull {x : Exchange} (h : x.queue.isFull) (c : Container) :
    x.begin (.offer c) = some (false, x, 0) := by
  simp only [begin, Operation.attempt, if_pos h]
  rfl

theorem Exchange.capacity_of_begin {x x' : Exchange} {action : Action} {answer : action.Answer}
    {owed : Nat} (h : x.begin action = some (answer, x', owed)) :
    x'.queue.capacity = x.queue.capacity := by
  cases action with
  | offer c | deliver c =>
    simp only [begin, Option.map_eq_some_iff] at h
    obtain ⟨a, ha, he⟩ := h
    cases he
    exact (Operation.attempted ha).capacity_eq
  | level =>
    obtain ⟨rfl, -⟩ := Prod.mk.inj (Prod.mk.inj (Option.some.inj h)).2
    rfl
  | isRunning | report | stop | announceEnd | close =>
    cases h
    rfl

def pushedBy (steps : List Step) : List Container :=
  ((handovers steps).filter Handover.accepted).map (·.sealed.container)

theorem pushedBy_append (before after : List Step) :
    pushedBy (before ++ after) = pushedBy before ++ pushedBy after := by
  simp only [pushedBy, handovers_append, List.filter_append, List.map_append]

theorem pushedBy_of_handover?_eq_none {s : Step} (h : s.handover? = none) : pushedBy [s] = [] := by
  rw [pushedBy, handovers_singleton_of_none h]
  rfl

/-- An exchange as the worker left it: the flag was set until the worker cleared it, each end that it
announced was notified, and the queue is closed if the worker closed it. -/
structure Exchange.LeftBy (x : Exchange) (steps : List Step) : Prop where
  running_eq : x.running = !steps.any Step.stops
  shutdowns_eq : x.shutdowns = steps.countP Step.announces
  closed_eq : x.queue.closed = steps.any Step.closes
  stopAt_eq : x.stopAt = none

theorem Exchange.notifyIncrease_of_stopAt {x : Exchange} (h : x.stopAt = none) :
    x.notifyIncrease = { x with increases := x.increases + 1 } := by
  simp [notifyIncrease, h]

theorem Exchange.LeftBy.notifyIncrease {x : Exchange} {steps : List Step} (h : x.LeftBy steps) :
    x.notifyIncrease.LeftBy steps where
  running_eq := by
    rw [Exchange.notifyIncrease_of_stopAt h.stopAt_eq, ← h.running_eq]
  shutdowns_eq := h.shutdowns_eq
  closed_eq := h.closed_eq
  stopAt_eq := h.stopAt_eq

/-- What a step makes of the flag, of the announcements and of whether the queue is closed. -/
structure Exchange.Marked (x : Exchange) (s : Step) (x' : Exchange) : Prop where
  running_eq : x'.running = (x.running && !s.stops)
  shutdowns_eq : x'.shutdowns = x.shutdowns + s.announces.toNat
  closed_eq : x'.queue.closed = (x.queue.closed || s.closes)
  stopAt_eq : x'.stopAt = x.stopAt

theorem Exchange.Marked.leftBy {x x' : Exchange} {steps : List Step} {s : Step}
    (hmarked : x.Marked s x') (h : x.LeftBy steps) : x'.LeftBy (steps ++ [s]) where
  running_eq := by
    rw [hmarked.running_eq, h.running_eq, List.any_append, Bool.not_or]
    simp
  shutdowns_eq := by
    rw [hmarked.shutdowns_eq, h.shutdowns_eq, List.countP_append, List.countP_singleton]
    cases s.announces <;> rfl
  closed_eq := by
    rw [hmarked.closed_eq, h.closed_eq, List.any_append]
    simp
  stopAt_eq := hmarked.stopAt_eq.trans h.stopAt_eq

theorem Exchange.marked_of_isRoutine {x x' : Exchange} {s : Step} (h : s.action.isRoutine)
    (hrunning : x'.running = x.running) (hshutdowns : x'.shutdowns = x.shutdowns)
    (hclosed : x'.queue.closed = x.queue.closed) (hstopAt : x'.stopAt = x.stopAt) :
    x.Marked s x' := by
  obtain ⟨hstops, hannounces, hcloses⟩ := Step.flags_of_isRoutine h
  refine ⟨?_, ?_, ?_, hstopAt⟩
  · rw [hstops, hrunning, Bool.not_false, Bool.and_true]
  · rw [hannounces, hshutdowns]
    rfl
  · rw [hcloses, hclosed, Bool.or_false]

/-- What an action leaves before any notification. -/
structure Exchange.Begun (x : Exchange) (s : Step) (x' : Exchange) (owed : Nat) : Prop where
  items : x'.queue.items = x.queue.items ++ pushedBy [s]
  owed_eq : owed = (pushedBy [s]).length
  increases : x'.increases = x.increases
  decreases : x'.decreases = x.decreases
  bounded : x.Bounded → x'.Bounded
  marked : x.Marked s x'
  refused : ∀ sealed, s.handover? = some ⟨sealed, false⟩ → x.queue.isFull
  goesOn : x.running → s.goesOn

namespace Exchange

variable {x x' : Exchange} {s : Step} {owed : Nat}

theorem begun_of_handover?_eq_none (hhand : s.handover? = none)
    (hqueue : ∃ closed, x'.queue = { x.queue with closed }) (hincreases : x'.increases = x.increases)
    (hdecreases : x'.decreases = x.decreases) (hmarked : x.Marked s x')
    (hgoes : x.running → s.goesOn) : x.Begun s x' 0 := by
  obtain ⟨closed, hqueue⟩ := hqueue
  have hnone := pushedBy_of_handover?_eq_none hhand
  refine {
    items := by rw [hnone, hqueue, List.append_nil]
    owed_eq := by rw [hnone]; rfl
    increases := hincreases
    decreases := hdecreases
    bounded := fun hx => ⟨hqueue ▸ hx.capacity_pos, hqueue ▸ hx.size_le⟩
    marked := hmarked
    refused := fun _ h => ?_
    goesOn := hgoes }
  rw [hhand] at h
  cases h

theorem begun_of_eq (hhand : s.handover? = none) (haction : s.action.isRoutine)
    (hgoes : x.running → s.goesOn) : x.Begun s x 0 :=
  begun_of_handover?_eq_none hhand ⟨_, rfl⟩ rfl rfl (marked_of_isRoutine haction rfl rfl rfl rfl)
    hgoes

/-- A container that is offered or delivered is added, or handed back. -/
theorem begun_of_attempted (sealed : Sealed) {op : Operation} {a : Attempt}
    (hattempted : Attempted x op a) (hop : op.container? = some sealed.container)
    (hhand : s.handover? = some ⟨sealed, a.answer.isAdded⟩) (haction : s.action.isRoutine)
    (hgoes : x.running → s.goesOn) : x.Begun s a.exchange a.owed := by
  cases hattempted with
  | added hop' hroom =>
    obtain rfl := Option.some.inj (hop'.symm.trans hop)
    have hone : pushedBy [s] = [sealed.container] := by
      rw [pushedBy, handovers_singleton_of_some hhand]
      rfl
    refine {
      items := by rw [hone]; rfl
      owed_eq := by rw [hone]; rfl
      increases := rfl
      decreases := rfl
      bounded := fun hx => ⟨hx.capacity_pos, (hx.insert hroom _).size_le⟩
      marked := marked_of_isRoutine haction rfl rfl rfl rfl
      refused := fun _ h => ?_
      goesOn := hgoes }
    rw [hhand] at h
    cases h
  | handedBack hop' hfull hcleared =>
    have hnone : pushedBy [s] = [] := by
      rw [pushedBy, handovers_singleton_of_some hhand]
      rfl
    exact {
      items := by rw [hnone, List.append_nil]
      owed_eq := by rw [hnone]; rfl
      increases := rfl
      decreases := rfl
      bounded := id
      marked := marked_of_isRoutine haction rfl rfl rfl rfl
      refused := fun _ _ => hfull
      goesOn := hgoes }
  | taken | nothing | closed | drained => cases hop

theorem begun {action : Action} {answer : action.Answer}
    (h : x.begin action = some (answer, x', owed)) : x.Begun ⟨action, answer⟩ x' owed := by
  cases action with
  | isRunning =>
    cases h
    exact begun_of_eq rfl rfl id
  | level =>
    have hnone : Step.handover? ⟨.level, answer⟩ = none := rfl
    have hgoes : (Step.mk .level answer).goesOn := rfl
    obtain ⟨rfl, rfl⟩ := Prod.mk.inj (Prod.mk.inj (Option.some.inj h)).2
    exact begun_of_eq hnone rfl fun _ => hgoes
  | report =>
    cases h
    exact begun_of_eq rfl rfl fun _ => rfl
  | offer c =>
    simp only [begin, Option.map_eq_some_iff] at h
    obtain ⟨a, ha, he⟩ := h
    cases he
    have hattempted := Operation.attempted ha
    have hgoes : (Step.mk (.offer c) a.answer.isAdded).goesOn := rfl
    exact begun_of_attempted (.data c) hattempted rfl rfl rfl fun _ => hgoes
  | deliver c =>
    simp only [begin, Option.map_eq_some_iff] at h
    obtain ⟨a, ha, he⟩ := h
    cases he
    have hattempted := Operation.attempted ha
    refine begun_of_attempted (.reset c) hattempted rfl rfl rfl fun hrunning => ?_
    cases hattempted with
    | added => rfl
    | handedBack hop _ hcleared =>
      cases hop
      rw [hcleared rfl] at hrunning
      cases hrunning
  | stop =>
    cases h
    exact begun_of_handover?_eq_none rfl ⟨_, rfl⟩ rfl rfl
      ⟨(Bool.and_false _).symm, rfl, (Bool.or_false _).symm, rfl⟩ fun _ => rfl
  | announceEnd =>
    cases h
    exact begun_of_handover?_eq_none rfl ⟨_, rfl⟩ rfl rfl
      ⟨(Bool.and_true _).symm, rfl, (Bool.or_false _).symm, rfl⟩ fun _ => rfl
  | close =>
    cases h
    exact begun_of_handover?_eq_none rfl ⟨_, rfl⟩ rfl rfl
      ⟨(Bool.and_true _).symm, rfl, (Bool.or_true _).symm, rfl⟩ fun _ => rfl

/-- A queue to which a container is handed on grows by it, or is full then. -/
theorem Begun.filled (h : x.Begun s x' owed) (hcapacity : x'.queue.capacity = x.queue.capacity) :
    x'.queue.isFull ∨
      x'.queue.items.length = x.queue.items.length + (handovers [s]).length := by
  have hlength : x'.queue.items.length = x.queue.items.length + (pushedBy [s]).length := by
    rw [h.items, List.length_append]
  cases hhand : s.handover? with
  | none =>
    right
    rw [hlength, pushedBy_of_handover?_eq_none hhand, handovers_singleton_of_none hhand]
    rfl
  | some o =>
    obtain ⟨sealed, accepted⟩ := o
    cases accepted with
    | true =>
      right
      rw [hlength, pushedBy, handovers_singleton_of_some hhand]
      rfl
    | false =>
      left
      have hfull : x.queue.capacity ≤ x.queue.items.length :=
        of_decide_eq_true (h.refused sealed hhand)
      exact decide_eq_true (by simp only [Queue.size]; omega)

/-- A full queue takes no container of events. -/
theorem accepted_eq_false_of_isFull (hfull : x.queue.isFull) {action : Action}
    {answer : action.Answer} (h : x.begin action = some (answer, x', owed)) {c : Container}
    {accepted : Bool} (hhand : (Step.mk action answer).handover? = some ⟨.data c, accepted⟩) :
    accepted = false := by
  cases action with
  | offer c =>
    cases hhand
    rw [begin_offer_of_isFull hfull] at h
    cases h
    rfl
  | deliver | isRunning | level | report | stop | announceEnd | close => cases hhand

end Exchange

/-! ## The meeting -/

/-- What a consumer is at: it asks for a container, it holds one of whose removal it has not notified
yet, or it was told that none is left. -/
inductive Consumer where
  | asking
  | holding (container : Container)
  | gone

/-- A step of the worker, and the exchange before it. -/
structure Deed where
  before : Exchange
  step : Step

/-- In this step the worker was handed a container back. -/
def Deed.HandedBack (deed : Deed) (sealed : Sealed) : Prop :=
  deed.step.handover? = some ⟨sealed, false⟩

/-- A worker and a consumer at an exchange, with what they did so far. -/
structure Meeting (dev : Device) (t : Transport) where
  exchange : Exchange
  /-- What is left of the turn of the worker. -/
  turn : Producer (Turn dev t)
  /-- The notifications that the worker has to give before it goes on. -/
  owed : Nat := 0
  consumer : Consumer := .asking
  /-- The steps of the worker. -/
  deeds : List Deed := []
  /-- The containers that the consumer got. -/
  received : List Container := []

/-- Who acts next. -/
inductive Party where
  | worker
  | consumer

def Acquisition.meeting {dev : Device} {t : Transport} (a : Acquisition dev t) : Meeting dev t :=
  { exchange := a.exchange, turn := a.turn }

namespace Meeting

variable {dev : Device} {t : Transport} {m : Meeting dev t}

def steps (m : Meeting dev t) : List Step :=
  m.deeds.map Deed.step

def pushed (m : Meeting dev t) : List Container :=
  pushedBy m.steps

def held (m : Meeting dev t) : List Container :=
  match m.consumer with
  | .holding c => [c]
  | .asking | .gone => []

/-- The worker took a step and has come to the rest of its turn. -/
def act (m : Meeting dev t) (s : Step) (exchange : Exchange) (turn : Producer (Turn dev t))
    (owed : Nat) : Meeting dev t :=
  { m with exchange, turn, owed, deeds := m.deeds ++ [⟨m.exchange, s⟩] }

theorem steps_act (m : Meeting dev t) (s : Step) (x : Exchange) (turn : Producer (Turn dev t))
    (owed : Nat) : (m.act s x turn owed).steps = m.steps ++ [s] :=
  List.map_append

theorem pushed_act (m : Meeting dev t) (s : Step) (x : Exchange) (turn : Producer (Turn dev t))
    (owed : Nat) : (m.act s x turn owed).pushed = m.pushed ++ pushedBy [s] := by
  rw [pushed, steps_act, pushedBy_append]
  rfl

/-- The worker acts: it notifies, goes on to another turn, or begins an action, unless this waits for
room. -/
def work (m : Meeting dev t) : Meeting dev t :=
  match m.owed, m.turn with
  | owed + 1, _ => { m with exchange := m.exchange.notifyIncrease, owed }
  | 0, .done turn => { m with turn := turn.next }
  | 0, .act action next =>
    match m.exchange.begin action with
    | some (answer, exchange, owed) => m.act ⟨action, answer⟩ exchange (next answer) owed
    | none => m

/-- The consumer acts: it takes a container, unless it waits for one, or notifies that it took one. -/
def consume (m : Meeting dev t) : Meeting dev t :=
  match m.consumer with
  | .asking =>
    match (Operation.pop true).attempt m.exchange with
    | some ⟨exchange, .taken c, _⟩ => { m with exchange, consumer := .holding c }
    | some ⟨exchange, _, _⟩ => { m with exchange, consumer := .gone }
    | none => m
  | .holding c =>
    { m with exchange := m.exchange.notifyDecrease, consumer := .asking
             received := m.received ++ [c] }
  | .gone => m

def step (m : Meeting dev t) : Party → Meeting dev t
  | .worker => m.work
  | .consumer => m.consume

def follow (m : Meeting dev t) (schedule : List Party) : Meeting dev t :=
  schedule.foldl step m

/-- What holds whenever a worker and a consumer meet. -/
structure Sound (m : Meeting dev t) : Prop where
  bounded : m.exchange.Bounded
  leftBy : m.exchange.LeftBy m.steps
  inOrder : m.received ++ m.held ++ m.exchange.queue.items = m.pushed
  increases : m.exchange.increases + m.owed = m.pushed.length
  decreases : m.exchange.decreases = m.received.length
  refused : ∀ deed ∈ m.deeds, ∀ sealed, deed.HandedBack sealed → deed.before.queue.isFull
  gone : m.consumer = .gone → m.exchange.queue.items = [] ∧ m.exchange.queue.closed
  underway : Underway m.turn m.steps

namespace Sound

theorem start {settings : Settings} {source : t.State} {paced : Bool} {a : Acquisition dev t}
    (hends : t.Ends source) (h : Acquisition.start dev settings t source paced = .ok a) :
    a.meeting.Sound := by
  obtain ⟨w, hw, h⟩ := exists_of_bind_eq_ok h
  cases h
  exact {
    bounded := Exchange.bounded_start _
    leftBy := ⟨rfl, rfl, rfl, rfl⟩
    inOrder := rfl
    increases := rfl
    decreases := rfl
    refused := fun _ hdeed => nomatch hdeed
    gone := nofun
    underway := .working (.again (Worker.fit_start hends hw)) (List.forall_mem_nil _) }

/-- The worker notifies of a container that it added. -/
theorem notify (h : m.Sound) {owed : Nat} (howed : m.owed = owed + 1) : Sound
    { m with exchange := m.exchange.notifyIncrease, owed } where
  bounded := ⟨h.bounded.capacity_pos, h.bounded.size_le⟩
  leftBy := h.leftBy.notifyIncrease
  inOrder := h.inOrder
  increases := by
    have hincreases := h.increases
    change m.exchange.increases + 1 + owed = m.pushed.length
    omega
  decreases := h.decreases
  refused := h.refused
  gone := h.gone
  underway := h.underway

theorem next (hdev : dev.NeverStops) (h : m.Sound) {turn : Turn dev t}
    (hturn : m.turn = .done turn) : Sound { m with turn := turn.next } :=
  { h with underway := (hturn ▸ h.underway : Underway (.done turn) m.steps).next hdev }

/-- The worker begins an action. -/
theorem act (h : m.Sound) (howed : m.owed = 0) {action : Action}
    {next : action.Answer → Producer (Turn dev t)} (hturn : m.turn = .act action next)
    {answer : action.Answer} {x : Exchange} {owed : Nat}
    (hbegin : m.exchange.begin action = some (answer, x, owed)) :
    (m.act ⟨action, answer⟩ x (next answer) owed).Sound := by
  have hbegun := Exchange.begun hbegin
  have hunderway : Underway (.act action next) m.steps := hturn ▸ h.underway
  refine {
    bounded := hbegun.bounded h.bounded
    leftBy := steps_act m .. ▸ hbegun.marked.leftBy h.leftBy
    inOrder := ?_
    increases := ?_
    decreases := hbegun.decreases.trans h.decreases
    refused := ?_
    gone := ?_
    underway := steps_act m .. ▸ hunderway.snoc fun hstops => hbegun.goesOn ?_ }
  · change m.received ++ m.held ++ x.queue.items = _
    rw [pushed_act, hbegun.items, ← h.inOrder, List.append_assoc (m.received ++ m.held)]
  · have hincreases := h.increases
    change x.increases + owed = _
    rw [pushed_act, List.length_append, hbegun.increases, ← hbegun.owed_eq]
    omega
  · intro deed hdeed
    rcases List.mem_append.1 hdeed with hdeed | hdeed
    · exact h.refused deed hdeed
    · obtain rfl := List.mem_singleton.1 hdeed
      exact hbegun.refused
  · intro hgone
    have hcloses := (h.gone hgone).2
    rw [h.leftBy.closed_eq] at hcloses
    obtain ⟨_, _, _, _, _, _, hdone, _⟩ := hunderway.finished hcloses
    cases hdone
  · rw [h.leftBy.running_eq, hstops]
    rfl

theorem work (hdev : dev.NeverStops) (h : m.Sound) : m.work.Sound := by
  unfold Meeting.work
  split
  · rename_i howed
    exact h.notify howed
  · rename_i hturn
    exact h.next hdev hturn
  · rename_i howed hturn
    split
    · rename_i hbegin
      exact h.act howed hturn hbegin
    · exact h

theorem take (h : m.Sound) (hasking : m.consumer = .asking) {c : Container}
    {items : List Container} (hitems : m.exchange.queue.items = c :: items) : Sound
      { m with exchange := { m.exchange with queue := { m.exchange.queue with items } }
               consumer := .holding c } where
  bounded := h.bounded.tail hitems
  leftBy := ⟨h.leftBy.running_eq, h.leftBy.shutdowns_eq, h.leftBy.closed_eq, h.leftBy.stopAt_eq⟩
  inOrder := by
    refine Eq.trans ?_ h.inOrder
    simp only [held, hasking, hitems, List.append_nil, List.append_assoc, List.singleton_append]
  increases := h.increases
  decreases := h.decreases
  refused := h.refused
  gone := nofun
  underway := h.underway

theorem get (h : m.Sound) {c : Container} (hholding : m.consumer = .holding c) : Sound
    { m with exchange := m.exchange.notifyDecrease, consumer := .asking
             received := m.received ++ [c] } where
  bounded := ⟨h.bounded.capacity_pos, h.bounded.size_le⟩
  leftBy := ⟨h.leftBy.running_eq, h.leftBy.shutdowns_eq, h.leftBy.closed_eq, h.leftBy.stopAt_eq⟩
  inOrder := by
    refine Eq.trans ?_ h.inOrder
    simp only [held, hholding, List.append_nil]
    rfl
  increases := h.increases
  decreases := by
    change m.exchange.decreases + 1 = _
    rw [h.decreases, List.length_append]
    rfl
  refused := h.refused
  gone := nofun
  underway := h.underway

theorem leave (h : m.Sound) (hasking : m.consumer = .asking) (hitems : m.exchange.queue.items = [])
    (hclosed : m.exchange.queue.closed) : Sound { m with consumer := .gone } :=
  { h with
    inOrder := by
      refine Eq.trans ?_ h.inOrder
      simp only [held, hasking]
    gone := fun _ => ⟨hitems, hclosed⟩ }

theorem consume (h : m.Sound) : m.consume.Sound := by
  unfold Meeting.consume
  split
  · rename_i hasking
    split
    · rename_i hattempt
      cases Operation.attempted hattempt with
      | taken hitems => exact h.take hasking hitems
    · rename_i hne hattempt
      cases Operation.attempted hattempt with
      | added hop | handedBack hop => cases hop
      | taken => exact (hne _ rfl).elim
      | nothing hitems hclosed => exact h.leave hasking hitems (hclosed rfl)
    · exact h
  · rename_i hholding
    exact h.get hholding
  · exact h

theorem step (hdev : dev.NeverStops) (h : m.Sound) (party : Party) : (m.step party).Sound := by
  cases party with
  | worker => exact h.work hdev
  | consumer => exact h.consume

theorem follow (hdev : dev.NeverStops) (h : m.Sound) (schedule : List Party) :
    (m.follow schedule).Sound := by
  induction schedule generalizing m with
  | nil => exact h
  | cons party schedule ih => exact ih (h.step hdev party)

end Sound

end Meeting

end EventCamera
