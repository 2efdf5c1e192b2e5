import EventCamera.Proofs.Meeting
import EventCamera.Proofs.Turns

/-! # An acquisition in service

The worker of an acquisition, any number of consumers, and the call that stops the acquisition act
in any order, one act at a time. The call clears the flag, closes the queue, waits until the worker
has come to its end, and then removes what is left. It has the acquisition for itself: no consumer
takes a container while it is in progress. -/

namespace EventCamera

/-- How far the call that stops an acquisition has come. -/
inductive Halt where
  | uncalled
  /-- The flag is cleared. -/
  | cleared
  /-- The queue is closed too, and the worker was not found at its end yet. -/
  | waiting
  /-- What was left is removed, and some notifications of it are still to follow. -/
  | draining (owed : Nat) (totals : Totals)
  | returned (result : Except AcquisitionError Totals)

namespace Halt

def clears : Halt → Bool
  | .uncalled => false
  | .cleared | .waiting | .draining .. | .returned _ => true

def closes : Halt → Bool
  | .uncalled | .cleared => false
  | .waiting | .draining .. | .returned _ => true

def isOpen : Halt → Bool
  | .uncalled | .returned _ => true
  | .cleared | .waiting | .draining .. => false

/-- The notifications that the call has still to give. -/
def owed : Halt → Nat
  | .draining owed _ => owed
  | .uncalled | .cleared | .waiting | .returned _ => 0

end Halt

/-- An acquisition with all that was done to it since it was started. -/
structure Service (dev : Device) (t : Transport) extends Acquisition dev t where
  /-- The notifications that the worker has to give before it goes on. -/
  owed : Nat := 0
  /-- The steps of the worker. -/
  steps : List Step := []
  /-- The containers that consumers took. -/
  popped : List Container := []
  /-- The notifications that consumers have still to give. -/
  owing : Nat := 0
  /-- The containers that the call that stops the acquisition removed. -/
  drained : List Container := []
  halt : Halt := .uncalled

def Acquisition.service {dev : Device} {t : Transport} (a : Acquisition dev t) : Service dev t :=
  { a with }

namespace Service

variable {dev : Device} {t : Transport} {m : Service dev t}

def pushed (m : Service dev t) : List Container :=
  pushedBy m.steps

/-- The worker acts: it notifies, goes on to another turn, or begins an action, unless this waits for
room. -/
def work (m : Service dev t) : Service dev t :=
  match m.owed, m.turn with
  | owed + 1, _ => { m with exchange := m.exchange.notifyIncrease, owed }
  | 0, .done turn => { m with turn := turn.next }
  | 0, .act action next =>
    match m.exchange.begin action with
    | some (answer, exchange, owed) =>
      { m with exchange, turn := next answer, owed, steps := m.steps ++ [⟨action, answer⟩] }
    | none => m

def pop (m : Service dev t) (waiting : Bool) : Service dev t :=
  if m.halt.isOpen then
    match (Operation.pop waiting).attempt m.exchange with
    | some ⟨exchange, .taken c, owed⟩ =>
      { m with exchange, popped := m.popped ++ [c], owing := m.owing + owed }
    | _ => m
  else m

def notify (m : Service dev t) : Service dev t :=
  match m.owing with
  | owing + 1 => { m with exchange := m.exchange.notifyDecrease, owing }
  | 0 => m

/-- The call that stops the acquisition goes on if the worker has come to its end. -/
def join (m : Service dev t) : Service dev t :=
  match m.turn? with
  | some (.finished worker) =>
    match Operation.drain.attempt m.exchange with
    | some ⟨exchange, _, owed⟩ =>
      { m with
        exchange, drained := m.exchange.queue.items, halt := .draining owed worker.total }
    | none => m
  | some .crashed => { m with halt := .returned (.error .crashed) }
  | some (.again _) | none => m

/-- The call that stops the acquisition acts. It begins when no consumer is busy with the
acquisition. Called again, it reports at once. -/
def stopping (m : Service dev t) : Service dev t :=
  match m.halt with
  | .uncalled =>
    if m.owing = 0 then
      { m with exchange := m.exchange.setRunning false, totals? := some {}, halt := .cleared }
    else m
  | .cleared => { m with exchange := m.exchange.close, halt := .waiting }
  | .waiting => if m.owed = 0 then m.join else m
  | .draining (owed + 1) totals =>
    { m with exchange := m.exchange.notifyDecrease, halt := .draining owed totals }
  | .draining 0 totals => { m with totals? := some totals, halt := .returned (.ok totals) }
  | .returned _ => { m with halt := .returned m.toAcquisition.stop.1 }

/-- What may happen next. -/
inductive Act where
  | work
  | pop (waiting : Bool)
  | notify
  | stop

def step (m : Service dev t) : Act → Service dev t
  | .work => m.work
  | .pop waiting => m.pop waiting
  | .notify => m.notify
  | .stop => m.stopping

def follow (m : Service dev t) (schedule : List Act) : Service dev t :=
  schedule.foldl step m

theorem follow_append (m : Service dev t) (before after : List Act) :
    m.follow (before ++ after) = (m.follow before).follow after :=
  List.foldl_append

/-! ## A worker at its end -/

theorem turn?_eq_some_iff {turn : Turn dev t} : m.turn? = some turn ↔ m.turn = .done turn := by
  unfold Acquisition.turn?
  cases m.turn <;> simp

theorem isOver_iff : m.isOver ↔
    m.turn = .done .crashed ∨ ∃ w : Worker dev t, m.turn = .done (.finished w) := by
  unfold Acquisition.isOver Acquisition.turn?
  cases m.turn with
  | act action next => simp
  | done turn => cases turn <;> simp

theorem work_of_isOver (howed : m.owed = 0) (hover : m.isOver) : m.work = m := by
  have hwork {turn : Turn dev t} (hturn : m.turn = .done turn) (hnext : turn.next = .done turn) :
      m.work = m := by
    simp only [work, howed, hturn, hnext]
    rw [← hturn, ← howed]
  rcases isOver_iff.1 hover with hturn | ⟨w, hturn⟩
  · exact hwork hturn rfl
  · exact hwork hturn rfl

/-- The worker has come to its end, no container is left, and every notification was given but those
of the call that stops the acquisition. -/
structure AtEnd (m : Service dev t) (w : Worker dev t) : Prop where
  turn_eq : m.turn = .done (.finished w)
  owed_eq : m.owed = 0
  owing_eq : m.owing = 0
  items_eq : m.exchange.queue.items = []

theorem AtEnd.isOver {w : Worker dev t} (h : m.AtEnd w) : m.isOver :=
  isOver_iff.2 (.inr ⟨w, h.turn_eq⟩)

/-- What the call that stops the acquisition has made sure of. -/
inductive Halted (m : Service dev t) : Halt → Prop where
  | uncalled : m.drained = [] → m.totals? = none → Halted m .uncalled
  | cleared : m.drained = [] → m.totals? = some {} → m.owing = 0 → Halted m .cleared
  | waiting : m.drained = [] → m.totals? = some {} → m.owing = 0 → Halted m .waiting
  | draining {w owed} : m.AtEnd w → Halted m (.draining owed w.total)
  | stopped {w} : m.AtEnd w → m.totals? = some w.total → Halted m (.returned (.ok w.total))
  | crashed {result} : m.turn = .done .crashed → m.owed = 0 → m.drained = [] →
      m.totals? = some {} → Halted m (.returned result)

namespace Halted

variable {m' : Service dev t} {halt : Halt}

/-- As long as the worker is busy, the call has made sure of nothing that the worker changes. -/
theorem of_busy (h : m.Halted halt) (hbusy : ¬ (m.owed = 0 ∧ m.isOver))
    (hdrained : m'.drained = m.drained) (htotals : m'.totals? = m.totals?)
    (howing : m'.owing = m.owing) : m'.Halted halt := by
  cases h with
  | uncalled hd ht => exact .uncalled (hdrained.trans hd) (htotals.trans ht)
  | cleared hd ht ho => exact .cleared (hdrained.trans hd) (htotals.trans ht) (howing.trans ho)
  | waiting hd ht ho => exact .waiting (hdrained.trans hd) (htotals.trans ht) (howing.trans ho)
  | draining hend | stopped hend => exact absurd ⟨hend.owed_eq, hend.isOver⟩ hbusy
  | crashed hturn howed => exact absurd ⟨howed, isOver_iff.2 (.inl hturn)⟩ hbusy

theorem isOpen_of_owing (h : m.Halted halt) (howing : m.owing ≠ 0) : halt.isOpen := by
  cases h with
  | uncalled | stopped | crashed => rfl
  | cleared _ _ ho | waiting _ _ ho => exact absurd ho howing
  | draining hend => exact absurd hend.owing_eq howing

/-- As long as something is left to them, consumers change nothing that the call has made sure of. -/
theorem of_consumer (h : m.Halted halt) (hopen : halt.isOpen) (hleft : ∀ w, ¬ m.AtEnd w)
    (hturn : m'.turn = m.turn) (howed : m'.owed = m.owed) (hdrained : m'.drained = m.drained)
    (htotals : m'.totals? = m.totals?) : m'.Halted halt := by
  cases h with
  | uncalled hd ht => exact .uncalled (hdrained.trans hd) (htotals.trans ht)
  | cleared | waiting | draining => cases hopen
  | stopped hend => exact absurd hend (hleft _)
  | crashed ht ho hd htot =>
    exact .crashed (hturn.trans ht) (howed.trans ho) (hdrained.trans hd) (htotals.trans htot)

/-- As long as something is left to consumers, the call has removed nothing. -/
theorem drained_eq (h : m.Halted halt) (hopen : halt.isOpen) (hleft : ∀ w, ¬ m.AtEnd w) :
    m.drained = [] := by
  cases h with
  | uncalled hd | cleared hd | waiting hd => exact hd
  | draining => cases hopen
  | stopped hend => exact absurd hend (hleft _)
  | crashed _ _ hd => exact hd

end Halted

/-! ## What always holds -/

/-- What holds at any time: the flag was set until the worker or the call cleared it, the queue was
closed by one of them or not at all, the containers came out in the order in which they went in, and
every change was notified of or will be. -/
structure Sound (source : t.State) (m : Service dev t) : Prop where
  stopAt_eq : m.exchange.stopAt = none
  running_eq : m.exchange.running = (!m.halt.clears && !m.steps.any Step.stops)
  closed_eq : m.exchange.queue.closed = (m.halt.closes || m.steps.any Step.closes)
  shutdowns_eq : m.exchange.shutdowns = m.steps.countP Step.announces
  inOrder : m.popped ++ m.drained ++ m.exchange.queue.items = m.pushed
  increases_eq : m.exchange.increases + m.owed = m.pushed.length
  decreases_eq : m.exchange.decreases + m.owing + m.halt.owed = (m.popped ++ m.drained).length
  steady : m.halt.clears = false → m.steps.any Step.stops = false → Steady m.steps
  lived : Lived source m.turn m.steps
  halted : m.Halted m.halt

namespace Sound

variable {source : t.State}

theorem start {settings : Settings} {paced : Bool} {a : Acquisition dev t}
    (h : Acquisition.start dev settings t source paced = .ok a) : a.service.Sound source := by
  obtain ⟨w, hw, h⟩ := exists_of_bind_eq_ok h
  cases h
  exact {
    stopAt_eq := rfl
    running_eq := rfl
    closed_eq := rfl
    shutdowns_eq := rfl
    inOrder := rfl
    increases_eq := rfl
    decreases_eq := rfl
    steady := fun _ _ => steady_nil
    lived := .between (.again (Worker.ran_start hw))
    halted := .uncalled rfl rfl }

theorem came (hdev : dev.NeverStops) (h : m.Sound source) {turn : Turn dev t}
    (hturn : m.turn = .done turn) : Came source turn m.steps :=
  (hturn ▸ h.lived : Lived source (.done turn) m.steps).came hdev

/-! ### The worker acts -/

theorem notifyIncrease (h : m.Sound source) {owed : Nat} (howed : m.owed = owed + 1) :
    Sound source { m with exchange := m.exchange.notifyIncrease, owed } := by
  rw [Exchange.notifyIncrease_of_stopAt h.stopAt_eq]
  refine { h with increases_eq := ?_, halted := h.halted.of_busy ?_ rfl rfl rfl }
  · have hincreases := h.increases_eq
    change m.exchange.increases + 1 + owed = m.pushed.length
    omega
  · simp [howed]

theorem next (hdev : dev.NeverStops) (h : m.Sound source) {turn : Turn dev t}
    (hbusy : ¬ (m.owed = 0 ∧ m.isOver)) (hturn : m.turn = .done turn) :
    Sound source { m with turn := turn.next } :=
  { h with
    lived := (hturn ▸ h.lived : Lived source (.done turn) m.steps).next hdev
    halted := h.halted.of_busy hbusy rfl rfl rfl }

/-- The worker begins an action. -/
theorem act (h : m.Sound source) (howed : m.owed = 0) {action : Action}
    {next : action.Answer → Producer (Turn dev t)} (hturn : m.turn = .act action next)
    {answer : action.Answer} {x : Exchange} {owed : Nat}
    (hbegin : m.exchange.begin action = some (answer, x, owed)) :
    Sound source { m with
      exchange := x, turn := next answer, owed, steps := m.steps ++ [⟨action, answer⟩] } := by
  have hbegun := Exchange.begun hbegin
  have hlived : Lived source (.act action next) m.steps := hturn ▸ h.lived
  refine {
    stopAt_eq := hbegun.marked.stopAt_eq.trans h.stopAt_eq
    running_eq := ?_
    closed_eq := ?_
    shutdowns_eq := ?_
    inOrder := ?_
    increases_eq := ?_
    decreases_eq := ?_
    steady := ?_
    lived := hlived.snoc answer
    halted := h.halted.of_busy ?_ rfl rfl rfl }
  · simp [hbegun.marked.running_eq, h.running_eq, Bool.and_assoc]
  · simp [hbegun.marked.closed_eq, h.closed_eq, Bool.or_assoc]
  · rw [hbegun.marked.shutdowns_eq, h.shutdowns_eq, List.countP_append, List.countP_singleton]
    cases Step.announces ⟨action, answer⟩ <;> rfl
  · simp only [pushed, pushedBy_append, hbegun.items, ← List.append_assoc]
    rw [h.inOrder, pushed]
  · have hincreases := h.increases_eq
    simp only [pushed, pushedBy_append, List.length_append, hbegun.increases, hbegun.owed_eq]
    rw [pushed, howed] at hincreases
    omega
  · rw [hbegun.decreases]
    exact h.decreases_eq
  · -- the worker saw the flag set, as neither it nor the call has cleared it
    intro hclears hstops
    rw [List.any_append, Bool.or_eq_false_iff] at hstops
    have hrunning : m.exchange.running = true := by
      simp [h.running_eq, hclears, hstops.1]
    exact steady_append.2
      ⟨h.steady hclears hstops.1, List.forall_mem_singleton.2 (hbegun.goesOn hrunning)⟩
  · rintro ⟨-, hover⟩
    simp [isOver_iff, hturn] at hover

theorem work (hdev : dev.NeverStops) (h : m.Sound source) : m.work.Sound source := by
  by_cases hbusy : m.owed = 0 ∧ m.isOver
  · rw [work_of_isOver hbusy.1 hbusy.2]
    exact h
  · unfold Service.work
    split
    · rename_i howed
      exact h.notifyIncrease howed
    · rename_i hturn
      exact h.next hdev hbusy hturn
    · rename_i howed hturn
      split
      · rename_i hbegin
        exact h.act howed hturn hbegin
      · exact h

/-! ### Consumers act -/

theorem take (h : m.Sound source) (hopen : m.halt.isOpen) {c : Container} {items : List Container}
    (hitems : m.exchange.queue.items = c :: items) : Sound source { m with
      exchange := { m.exchange with queue := { m.exchange.queue with items } }
      popped := m.popped ++ [c], owing := m.owing + 1 } := by
  have hleft : ∀ w, ¬ m.AtEnd w := fun w hend => by simp [hend.items_eq] at hitems
  have hdrained := h.halted.drained_eq hopen hleft
  refine { h with
    inOrder := ?_
    decreases_eq := ?_
    halted := h.halted.of_consumer hopen hleft rfl rfl rfl rfl }
  · have hinOrder := h.inOrder
    change m.popped ++ [c] ++ m.drained ++ items = m.pushed
    rw [← hinOrder, hdrained, hitems]
    simp
  · have hdecreases := h.decreases_eq
    simp only [List.length_append, List.length_singleton] at hdecreases ⊢
    change m.exchange.decreases + (m.owing + 1) + m.halt.owed = _
    omega

theorem pop (h : m.Sound source) (waiting : Bool) : (m.pop waiting).Sound source := by
  unfold Service.pop
  split
  · rename_i hopen
    split
    · rename_i hattempt
      cases Operation.attempted hattempt with
      | taken hitems => exact h.take hopen hitems
    · exact h
  · exact h

theorem notify (h : m.Sound source) : m.notify.Sound source := by
  unfold Service.notify
  split
  · rename_i owing howing
    have hleft : m.owing ≠ 0 := by omega
    refine { h with
      decreases_eq := ?_
      halted := h.halted.of_consumer (h.halted.isOpen_of_owing hleft) (fun w hend => ?_) rfl rfl rfl
        rfl }
    · have hdecreases := h.decreases_eq
      change m.exchange.decreases + 1 + owing + m.halt.owed = (m.popped ++ m.drained).length
      omega
    · exact hleft hend.owing_eq
  · exact h

/-! ### The call that stops the acquisition acts -/

/-- What holds when the call has come a certain way. -/
theorem of_halt (h : m.Sound source) {halt : Halt} (hhalt : m.halt = halt) :
    m.exchange.running = (!halt.clears && !m.steps.any Step.stops) ∧
      m.exchange.queue.closed = (halt.closes || m.steps.any Step.closes) ∧
      m.exchange.decreases + m.owing + halt.owed = (m.popped ++ m.drained).length ∧
      m.Halted halt := by
  subst hhalt
  exact ⟨h.running_eq, h.closed_eq, h.decreases_eq, h.halted⟩

theorem clear (h : m.Sound source) (hhalt : m.halt = .uncalled) (howing : m.owing = 0) :
    Sound source { m with
      exchange := m.exchange.setRunning false, totals? := some {}, halt := .cleared } := by
  obtain ⟨-, hclosed, hdecreases, hhalted⟩ := h.of_halt hhalt
  cases hhalted with
  | uncalled hdrained =>
    exact { h with
      running_eq := rfl
      closed_eq := hclosed
      decreases_eq := hdecreases
      steady := nofun
      halted := .cleared hdrained rfl howing }

/-- The call closes the queue. -/
theorem close (h : m.Sound source) (hhalt : m.halt = .cleared) :
    Sound source { m with exchange := m.exchange.close, halt := .waiting } := by
  obtain ⟨hrunning, -, hdecreases, hhalted⟩ := h.of_halt hhalt
  cases hhalted with
  | cleared hdrained htotals howing =>
    exact { h with
      running_eq := hrunning
      closed_eq := rfl
      decreases_eq := hdecreases
      steady := nofun
      halted := .waiting hdrained htotals howing }

theorem drain (h : m.Sound source) (hhalt : m.halt = .waiting) (howed : m.owed = 0)
    {w : Worker dev t} (hturn : m.turn = .done (.finished w)) : Sound source { m with
      exchange := { m.exchange with queue := m.exchange.queue.clear }
      drained := m.exchange.queue.items, halt := .draining m.exchange.queue.size w.total } := by
  obtain ⟨hrunning, hclosed, hdecreases, hhalted⟩ := h.of_halt hhalt
  cases hhalted with
  | waiting hdrained _ howing =>
    have hinOrder := h.inOrder
    rw [hdrained, List.append_nil] at hinOrder hdecreases
    exact { h with
      running_eq := hrunning
      closed_eq := hclosed
      inOrder := (List.append_nil _).trans hinOrder
      decreases_eq := by
        rw [List.length_append, ← hdecreases]
        rfl
      steady := nofun
      halted := .draining ⟨hturn, howed, howing, rfl⟩ }

theorem giveUp (h : m.Sound source) (hhalt : m.halt = .waiting) (howed : m.owed = 0)
    (hturn : m.turn = .done .crashed) :
    Sound source { m with halt := .returned (.error .crashed) } := by
  obtain ⟨hrunning, hclosed, hdecreases, hhalted⟩ := h.of_halt hhalt
  cases hhalted with
  | waiting hdrained htotals _ =>
    exact { h with
      running_eq := hrunning
      closed_eq := hclosed
      decreases_eq := hdecreases
      steady := nofun
      halted := .crashed hturn howed hdrained htotals }

theorem join (h : m.Sound source) (hhalt : m.halt = .waiting) (howed : m.owed = 0) :
    m.join.Sound source := by
  unfold Service.join
  split
  · rename_i hturn
    exact h.drain hhalt howed (turn?_eq_some_iff.1 hturn)
  · rename_i hturn
    exact h.giveUp hhalt howed (turn?_eq_some_iff.1 hturn)
  · exact h
  · exact h

theorem notifyDecrease (h : m.Sound source) {owed : Nat} {totals : Totals}
    (hhalt : m.halt = .draining (owed + 1) totals) : Sound source { m with
      exchange := m.exchange.notifyDecrease, halt := .draining owed totals } := by
  obtain ⟨hrunning, hclosed, hdecreases, hhalted⟩ := h.of_halt hhalt
  cases hhalted with
  | draining hend =>
    exact { h with
      running_eq := hrunning
      closed_eq := hclosed
      decreases_eq := by
        change m.exchange.decreases + m.owing + (owed + 1) = _ at hdecreases
        change m.exchange.decreases + 1 + m.owing + owed = (m.popped ++ m.drained).length
        omega
      steady := nofun
      halted := .draining ⟨hend.turn_eq, hend.owed_eq, hend.owing_eq, hend.items_eq⟩ }

theorem report (h : m.Sound source) {totals : Totals} (hhalt : m.halt = .draining 0 totals) :
    Sound source { m with totals? := some totals, halt := .returned (.ok totals) } := by
  obtain ⟨hrunning, hclosed, hdecreases, hhalted⟩ := h.of_halt hhalt
  cases hhalted with
  | draining hend =>
    exact { h with
      running_eq := hrunning
      closed_eq := hclosed
      decreases_eq := hdecreases
      steady := nofun
      halted := .stopped ⟨hend.turn_eq, hend.owed_eq, hend.owing_eq, hend.items_eq⟩ rfl }

theorem again (h : m.Sound source) {result : Except AcquisitionError Totals}
    (hhalt : m.halt = .returned result) :
    Sound source { m with halt := .returned m.toAcquisition.stop.1 } := by
  obtain ⟨hrunning, hclosed, hdecreases, hhalted⟩ := h.of_halt hhalt
  refine { h with
    running_eq := hrunning
    closed_eq := hclosed
    decreases_eq := hdecreases
    steady := nofun
    halted := ?_ }
  cases hhalted with
  | @stopped w hend htotals =>
    have hstop : m.toAcquisition.stop.1 = .ok w.total := by simp only [Acquisition.stop, htotals]
    rw [hstop]
    exact .stopped ⟨hend.turn_eq, hend.owed_eq, hend.owing_eq, hend.items_eq⟩ htotals
  | crashed hturn howed hdrained htotals => exact .crashed hturn howed hdrained htotals

theorem stopping (h : m.Sound source) : m.stopping.Sound source := by
  unfold Service.stopping
  split
  · rename_i hhalt
    split
    · rename_i howing
      exact h.clear hhalt howing
    · exact h
  · rename_i hhalt
    exact h.close hhalt
  · rename_i hhalt
    split
    · rename_i howed
      exact h.join hhalt howed
    · exact h
  · rename_i hhalt
    exact h.notifyDecrease hhalt
  · rename_i hhalt
    exact h.report hhalt
  · rename_i hhalt
    exact h.again hhalt

/-! ### Any acts -/

theorem step (hdev : dev.NeverStops) (h : m.Sound source) (act : Act) :
    (m.step act).Sound source := by
  cases act with
  | work => exact h.work hdev
  | pop waiting => exact h.pop waiting
  | notify => exact h.notify
  | stop => exact h.stopping

theorem follow (hdev : dev.NeverStops) (h : m.Sound source) (schedule : List Act) :
    (m.follow schedule).Sound source := by
  induction schedule generalizing m with
  | nil => exact h
  | cons act schedule ih => exact ih (h.step hdev act)

end Sound

end Service

end EventCamera
