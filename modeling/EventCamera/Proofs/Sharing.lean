import EventCamera.Proofs.Operations

/-! # Sharing the exchange

Any number of operations on the queue are in progress at once, and take their steps in any order,
while the flag changes at any time. No container is lost, doubled or overtaken, and the
notifications count them. -/

namespace EventCamera

/-! ## Operations in progress -/

/-- How far an operation came. -/
inductive Stage where
  | begun
  /-- The answer is known, and some notifications are still to follow. -/
  | telling (owed : Nat) (answer : Answer)
  | finished (answer : Answer)

def Stage.answer? : Stage → Option Answer
  | .begun => none
  | .telling _ answer | .finished answer => some answer

def Stage.owed : Stage → Nat
  | .telling owed _ => owed
  | .begun | .finished _ => 0

def Stage.isFinished : Stage → Bool
  | .finished _ => true
  | .begun | .telling .. => false

/-- An operation that was called. -/
structure Task where
  op : Operation
  stage : Stage := .begun

/-- A step of an operation: where it leaves the exchange and the operation. -/
def Task.act (task : Task) (x : Exchange) : Exchange × Stage :=
  match task.stage with
  | .begun =>
    match task.op.attempt x with
    | some a => (a.exchange, .telling a.owed a.answer)
    | none => (x, .begun)
  | .telling (owed + 1) answer => (task.op.notify x, .telling owed answer)
  | .telling 0 answer | .finished answer => (x, .finished answer)

/-- A step that was taken. -/
structure Moment where
  /-- The number of the operation, in the order of the calls. -/
  id : Nat
  op : Operation
  before : Exchange
  after : Exchange
  /-- The answer, if it became known in this step. -/
  answer? : Option Answer

/-- The answer that becomes known in the next step, if one does. -/
def Task.decides? (task : Task) (x : Exchange) : Option Answer :=
  match task.stage with
  | .begun => (task.op.attempt x).map Attempt.answer
  | .telling .. | .finished _ => none

def Moment.added (m : Moment) : List Container :=
  match m.answer? with
  | some .added => m.op.container?.toList
  | _ => []

def Moment.removed (m : Moment) : List Container :=
  match m.answer? with
  | some (.taken c) => [c]
  | some (.drained _) => m.before.queue.items
  | _ => []

/-- An exchange with the operations that were called on it, and all of their steps so far. -/
structure Sharing where
  exchange : Exchange
  tasks : List Task := []
  history : List Moment := []

/-- What may happen next. -/
inductive Choice where
  | call (op : Operation)
  /-- The operation with this number takes a step. -/
  | act (id : Nat)
  | switch (running : Bool)

namespace Sharing

def start (capacity : Nat) : Sharing :=
  { exchange := .start capacity }

def act (s : Sharing) (id : Nat) (task : Task) : Sharing where
  exchange := (task.act s.exchange).1
  tasks := s.tasks.set id { task with stage := (task.act s.exchange).2 }
  history := s.history ++
    [⟨id, task.op, s.exchange, (task.act s.exchange).1, task.decides? s.exchange⟩]

def step (s : Sharing) : Choice → Sharing
  | .call op => { s with tasks := s.tasks ++ [{ op }] }
  | .act id =>
    match s.tasks[id]? with
    | some task => s.act id task
    | none => s
  | .switch running => { s with exchange := s.exchange.setRunning running }

def follow (s : Sharing) (schedule : List Choice) : Sharing :=
  schedule.foldl step s

def added (s : Sharing) : List Container :=
  s.history.flatMap Moment.added

def removed (s : Sharing) : List Container :=
  s.history.flatMap Moment.removed

end Sharing

/-! ## Notifications that are owed -/

/-- The notifications that an operation owes, of additions or of removals. -/
def Task.owes (adds : Bool) (task : Task) : Nat :=
  if task.op.container?.isSome = adds then task.stage.owed else 0

/-- The notifications that operations owe together. -/
def owedBy (adds : Bool) (tasks : List Task) : Nat :=
  tasks.foldr (fun task n => task.owes adds + n) 0

theorem owedBy_append (adds : Bool) (before after : List Task) :
    owedBy adds (before ++ after) = owedBy adds before + owedBy adds after := by
  induction before with
  | nil => exact (Nat.zero_add _).symm
  | cons task before ih =>
    change task.owes adds + owedBy adds (before ++ after) = _
    rw [ih, ← Nat.add_assoc]
    rfl

theorem owedBy_set (adds : Bool) {tasks : List Task} {id : Nat} {task : Task} (task' : Task)
    (h : tasks[id]? = some task) :
    owedBy adds (tasks.set id task') + task.owes adds = owedBy adds tasks + task'.owes adds := by
  induction tasks generalizing id with
  | nil => cases h
  | cons first tasks ih =>
    cases id with
    | zero =>
      obtain rfl := Option.some.inj h
      simp only [List.set_cons_zero, owedBy, List.foldr_cons]
      omega
    | succ id =>
      have hlater := ih h
      simp only [List.set_cons_succ, owedBy, List.foldr_cons] at hlater ⊢
      omega

theorem owedBy_of_finished {adds : Bool} {tasks : List Task}
    (h : ∀ task ∈ tasks, task.stage.isFinished) : owedBy adds tasks = 0 := by
  induction tasks with
  | nil => rfl
  | cons task tasks ih =>
    obtain ⟨hfirst, hlater⟩ := List.forall_mem_cons.1 h
    have hnone : task.owes adds = 0 := by
      obtain ⟨op, stage⟩ := task
      cases stage <;> cases hfirst
      exact ite_self _
    change task.owes adds + owedBy adds tasks = 0
    rw [hnone, ih hlater]

/-! ## What every step keeps -/

/-- The answer that an operation has is one that its attempt could come to, and the attempt was one
of its steps. -/
def Task.Answered (task : Task) (id : Nat) (history : List Moment) : Prop :=
  ∀ answer, task.stage.answer? = some answer → ∃ m ∈ history, m.id = id ∧
    m.answer? = some answer ∧ ∃ owed, task.stage.owed ≤ owed ∧
      Attempted m.before task.op ⟨m.after, answer, owed⟩

/-- Whether the operation has not changed anything so far: it has no answer yet, or its container was
handed back. -/
def Stage.isIdle (stage : Stage) : Bool :=
  stage.answer?.all Answer.isHandedBack

/-- What holds of an exchange that is shared. -/
structure Sharing.Sound (capacity : Nat) (s : Sharing) : Prop where
  fifo : s.added = s.removed ++ s.exchange.queue.items
  capacity_eq : s.exchange.queue.capacity = max capacity 1
  bounded : s.exchange.Bounded
  increases : s.exchange.increases + owedBy true s.tasks = s.added.length
  decreases : s.exchange.decreases + owedBy false s.tasks = s.removed.length
  answered : ∀ id (task : Task), s.tasks[id]? = some task → task.Answered id s.history
  idle : ∀ m ∈ s.history, ∃ task, s.tasks[m.id]? = some task ∧
    (task.stage.isIdle → m.after = m.before)

/-- What a step of an operation does. -/
structure Task.Acts (task : Task) (x : Exchange) (m : Moment) (task' : Task) : Prop where
  fifo : x.queue.items ++ m.added = m.removed ++ m.after.queue.items
  capacity_eq : m.after.queue.capacity = x.queue.capacity
  bounded : x.Bounded → m.after.Bounded
  increases : m.after.increases + task'.owes true =
    x.increases + task.owes true + m.added.length
  decreases : m.after.decreases + task'.owes false =
    x.decreases + task.owes false + m.removed.length
  idle : task'.stage.isIdle → task.stage.isIdle ∧ m.after = x

namespace Task

variable {task : Task} {x : Exchange} {id : Nat} {history : List Moment}

theorem Answered.append (h : task.Answered id history) (later : List Moment) :
    task.Answered id (history ++ later) := by
  intro answer hanswer
  obtain ⟨m, hm, hrest⟩ := h answer hanswer
  exact ⟨m, List.mem_append_left _ hm, hrest⟩

theorem Answered.owed_eq_zero (h : task.Answered id history) (hidle : task.stage.isIdle) :
    task.stage.owed = 0 := by
  cases hanswer : task.stage.answer? with
  | none =>
    cases hstage : task.stage with
    | begun => rfl
    | telling | finished =>
      rw [hstage] at hanswer
      cases hanswer
  | some answer =>
    rw [Stage.isIdle, hanswer] at hidle
    cases answer <;> cases hidle
    obtain ⟨m, -, -, -, owed, hle, hattempted⟩ := h _ hanswer
    obtain ⟨-, -, -, -, rfl⟩ := hattempted.of_handedBack
    exact Nat.le_zero.1 hle

theorem acts_of_none {task' : Task} {m : Moment} (hadded : m.added = []) (hremoved : m.removed = [])
    (hqueue : ∃ closed, m.after.queue = { x.queue with closed })
    (hincreases : m.after.increases + task'.owes true = x.increases + task.owes true)
    (hdecreases : m.after.decreases + task'.owes false = x.decreases + task.owes false)
    (hidle : task'.stage.isIdle → task.stage.isIdle ∧ m.after = x) : task.Acts x m task' := by
  obtain ⟨closed, hqueue⟩ := hqueue
  exact {
    fifo := by rw [hadded, hremoved, hqueue, List.append_nil, List.nil_append]
    capacity_eq := by rw [hqueue]
    bounded := fun hx => ⟨hqueue ▸ hx.capacity_pos, hqueue ▸ hx.size_le⟩
    increases := by rw [hincreases, hadded, List.length_nil, Nat.add_zero]
    decreases := by rw [hdecreases, hremoved, List.length_nil, Nat.add_zero]
    idle := hidle }

variable (task x id)

def moment : Moment :=
  ⟨id, task.op, x, (task.act x).1, task.decides? x⟩

def next : Task :=
  { task with stage := (task.act x).2 }

theorem acts_attempt {a : Attempt} (hbegun : task.stage = .begun)
    (h : task.op.attempt x = some a) : task.Acts x (task.moment x id) (task.next x) := by
  obtain ⟨op, stage⟩ := task
  obtain rfl : stage = .begun := hbegun
  simp only at h
  have hmoment : moment ⟨op, .begun⟩ x id = ⟨id, op, x, a.exchange, some a.answer⟩ := by
    simp only [moment, act, decides?, h, Option.map_some]
  have hnext : next ⟨op, .begun⟩ x = ⟨op, .telling a.owed a.answer⟩ := by
    simp only [next, act, h]
  rw [hmoment, hnext]
  cases Operation.attempted h with
  | @added _ c hop hroom =>
    exact {
      fifo := by simp only [Moment.added, Moment.removed, hop]; rfl
      capacity_eq := rfl
      bounded := fun hx => ⟨hx.capacity_pos, (hx.insert hroom c).size_le⟩
      increases := by simp [owes, Moment.added, hop, Stage.owed, Exchange.insert]
      decreases := by simp [owes, Moment.removed, hop, Exchange.insert]
      idle := nofun }
  | taken hitems =>
    exact {
      fifo := by simpa [Moment.added, Moment.removed] using hitems
      capacity_eq := rfl
      bounded := fun hx => hx.tail hitems
      increases := by simp [owes, Moment.added, Operation.container?]
      decreases := by simp [owes, Moment.removed, Operation.container?, Stage.owed]
      idle := nofun }
  | drained =>
    exact {
      fifo := by simp [Moment.added, Moment.removed, Queue.clear]
      capacity_eq := rfl
      bounded := fun hx => ⟨hx.capacity_pos, Nat.zero_le _⟩
      increases := by simp [owes, Moment.added, Operation.container?]
      decreases := by simp [owes, Moment.removed, Operation.container?, Stage.owed, Queue.size]
      idle := nofun }
  | handedBack => exact acts_of_none rfl rfl ⟨_, rfl⟩ rfl rfl fun _ => ⟨rfl, rfl⟩
  | nothing | closed => exact acts_of_none rfl rfl ⟨_, rfl⟩ rfl rfl nofun

theorem acts_notify {owed : Nat} {answer : Answer}
    (htelling : task.stage = .telling (owed + 1) answer)
    (hchanged : answer.isHandedBack = false) : task.Acts x (task.moment x id) (task.next x) := by
  obtain ⟨op, stage⟩ := task
  obtain rfl : stage = .telling (owed + 1) answer := htelling
  have hidle : ¬ (next ⟨op, .telling (owed + 1) answer⟩ x).stage.isIdle :=
    ne_true_of_eq_false hchanged
  have hafter : (moment ⟨op, .telling (owed + 1) answer⟩ x id).after = op.notify x := rfl
  refine acts_of_none rfl rfl ?_ ?_ ?_ fun h => absurd h hidle <;> rw [hafter, Operation.notify]
  · split <;> exact ⟨_, rfl⟩
  all_goals
    by_cases hadds : op.container?.isSome <;>
      simp [owes, next, act, hadds, Stage.owed, Exchange.notifyIncrease, Exchange.notifyDecrease]
    omega

/-- An operation that waits, or that returns, does nothing to the exchange. -/
theorem acts_rest {stage : Stage} (hact : task.act x = (x, stage)) (hnone : task.decides? x = none)
    (howed : stage.owed = task.stage.owed) (hidle : stage.isIdle → task.stage.isIdle) :
    task.Acts x (task.moment x id) (task.next x) := by
  have hmoment : task.moment x id = ⟨id, task.op, x, x, none⟩ := by
    simp only [moment, hact, hnone]
  have hnext : task.next x = ⟨task.op, stage⟩ := by
    simp only [next, hact]
  rw [hmoment, hnext]
  have howes (adds : Bool) : owes adds ⟨task.op, stage⟩ = task.owes adds := by
    simp only [owes, howed]
  exact acts_of_none rfl rfl ⟨_, rfl⟩ (by rw [howes]) (by rw [howes]) fun h => ⟨hidle h, rfl⟩

theorem acts (h : task.Answered id history) : task.Acts x (task.moment x id) (task.next x) := by
  cases hstage : task.stage with
  | begun =>
    cases hattempt : task.op.attempt x with
    | none =>
      refine acts_rest task x id (?_ : task.act x = (x, .begun)) ?_ ?_ ?_
      · simp only [act, hstage, hattempt]
      · simp only [decides?, hstage, hattempt, Option.map_none]
      · rw [hstage]
      · exact fun _ => hstage ▸ rfl
    | some a => exact acts_attempt task x id hstage hattempt
  | telling owed answer =>
    cases owed with
    | zero =>
      refine acts_rest task x id (?_ : task.act x = (x, .finished answer)) ?_ ?_ ?_
      · simp only [act, hstage]
      · simp only [decides?, hstage]
      · rw [hstage]
        rfl
      · exact fun hidle => hstage ▸ hidle
    | succ owed =>
      refine acts_notify task x id hstage (Bool.eq_false_iff.2 fun hback => ?_)
      have hzero := h.owed_eq_zero (by rw [hstage]; exact hback)
      rw [hstage] at hzero
      cases hzero
  | finished answer =>
    refine acts_rest task x id (?_ : task.act x = (x, .finished answer)) ?_ ?_ ?_
    · simp only [act, hstage]
    · simp only [decides?, hstage]
    · rw [hstage]
    · exact fun hidle => hstage ▸ hidle

theorem answered_next (h : task.Answered id history) :
    (task.next x).Answered id (history ++ [task.moment x id]) := by
  intro answer hanswer
  cases hstage : task.stage with
  | begun =>
    simp only [next, act, hstage] at hanswer ⊢
    cases hattempt : task.op.attempt x with
    | none =>
      simp only [hattempt] at hanswer
      cases hanswer
    | some a =>
      simp only [hattempt] at hanswer ⊢
      obtain rfl := Option.some.inj hanswer
      refine ⟨task.moment x id, List.mem_append_right _ List.mem_cons_self, rfl, ?_, a.owed,
        Nat.le_refl _, ?_⟩
      · simp only [moment, decides?, hstage, hattempt, Option.map_some]
      · have hafter : (task.moment x id).after = a.exchange := by
          simp only [moment, act, hstage, hattempt]
        rw [hafter]
        exact Operation.attempted hattempt
  | telling owed answer' =>
    have hold := h.append [task.moment x id]
    cases owed with
    | zero =>
      simp only [next, act, hstage] at hanswer ⊢
      obtain rfl := Option.some.inj hanswer
      obtain ⟨m, hm, hid, hdecided, owed, -, hattempted⟩ := hold answer' (by rw [hstage]; rfl)
      exact ⟨m, hm, hid, hdecided, owed, Nat.zero_le _, hattempted⟩
    | succ owed =>
      simp only [next, act, hstage] at hanswer ⊢
      obtain rfl := Option.some.inj hanswer
      obtain ⟨m, hm, hid, hdecided, all, hle, hattempted⟩ := hold answer' (by rw [hstage]; rfl)
      rw [hstage] at hle
      exact ⟨m, hm, hid, hdecided, all, Nat.le_of_succ_le hle, hattempted⟩
  | finished answer' =>
    have hold := h.append [task.moment x id]
    simp only [next, act, hstage] at hanswer ⊢
    obtain rfl := Option.some.inj hanswer
    obtain ⟨m, hm, hid, hdecided, owed, -, hattempted⟩ := hold answer' (by rw [hstage]; rfl)
    exact ⟨m, hm, hid, hdecided, owed, Nat.zero_le _, hattempted⟩

end Task

namespace Sharing

variable {capacity : Nat} {s : Sharing}

theorem sound_start (capacity : Nat) : (start capacity).Sound capacity where
  fifo := rfl
  capacity_eq := rfl
  bounded := Exchange.bounded_start capacity
  increases := rfl
  decreases := rfl
  answered id task htask := by simp [start] at htask
  idle m hm := by simp [start] at hm

theorem Sound.call (h : s.Sound capacity) (op : Operation) :
    (s.step (.call op)).Sound capacity where
  fifo := h.fifo
  capacity_eq := h.capacity_eq
  bounded := h.bounded
  increases := by
    have hnew : owedBy true [{ op : Task }] = 0 := ite_self _
    simp only [step, owedBy_append, hnew]
    exact h.increases
  decreases := by
    have hnew : owedBy false [{ op : Task }] = 0 := ite_self _
    simp only [step, owedBy_append, hnew]
    exact h.decreases
  answered := by
    intro id task htask
    simp only [step, List.getElem?_append] at htask
    split at htask
    · exact h.answered id task htask
    · obtain ⟨rfl⟩ := List.mem_singleton.1 (List.mem_of_getElem? htask)
      intro answer hanswer
      cases hanswer
  idle := by
    intro m hm
    obtain ⟨task, htask, hidle⟩ := h.idle m hm
    refine ⟨task, ?_, hidle⟩
    simp only [step]
    rw [List.getElem?_append_left (List.getElem?_eq_some_iff.1 htask).1, htask]

theorem Sound.switch (h : s.Sound capacity) (running : Bool) :
    (s.step (.switch running)).Sound capacity where
  fifo := h.fifo
  capacity_eq := h.capacity_eq
  bounded := ⟨h.bounded.capacity_pos, h.bounded.size_le⟩
  increases := h.increases
  decreases := h.decreases
  answered := h.answered
  idle := h.idle

theorem Sound.act (h : s.Sound capacity) {id : Nat} {task : Task}
    (htask : s.tasks[id]? = some task) : (s.act id task).Sound capacity := by
  have hacts := task.acts s.exchange id (h.answered id task htask)
  have hadded : (s.act id task).added = s.added ++ (task.moment s.exchange id).added := by
    simp only [Sharing.added, Sharing.act, List.flatMap_append, List.flatMap_singleton]
    rfl
  have hremoved : (s.act id task).removed = s.removed ++ (task.moment s.exchange id).removed := by
    simp only [Sharing.removed, Sharing.act, List.flatMap_append, List.flatMap_singleton]
    rfl
  have hlookup (j : Nat) : (s.act id task).tasks[j]? =
      if j = id then some (task.next s.exchange) else s.tasks[j]? := by
    simp only [Sharing.act, List.getElem?_set, (List.getElem?_eq_some_iff.1 htask).1]
    by_cases hj : j = id
    · simp [hj, Task.next]
    · simp [hj, Ne.symm hj]
  refine {
    fifo := ?_
    capacity_eq := hacts.capacity_eq.trans h.capacity_eq
    bounded := hacts.bounded h.bounded
    increases := ?_
    decreases := ?_
    answered := ?_
    idle := ?_ }
  · rw [hadded, hremoved, h.fifo, List.append_assoc, hacts.fifo, List.append_assoc]
    rfl
  · have howed := owedBy_set true (task.next s.exchange) htask
    have hmoved := hacts.increases
    have hsofar := h.increases
    rw [hadded, List.length_append]
    change (task.moment s.exchange id).after.increases +
      owedBy true (s.tasks.set id (task.next s.exchange)) = _
    omega
  · have howed := owedBy_set false (task.next s.exchange) htask
    have hmoved := hacts.decreases
    have hsofar := h.decreases
    rw [hremoved, List.length_append]
    change (task.moment s.exchange id).after.decreases +
      owedBy false (s.tasks.set id (task.next s.exchange)) = _
    omega
  · intro j other hother
    rw [hlookup] at hother
    split at hother
    · subst j
      obtain rfl := Option.some.inj hother
      exact task.answered_next s.exchange id (h.answered id task htask)
    · exact (h.answered j other hother).append _
  · intro m hm
    rcases List.mem_append.1 hm with hm | hm
    · obtain ⟨other, hother, hidle⟩ := h.idle m hm
      by_cases hid : m.id = id
      · rw [hid, htask] at hother
        obtain rfl := Option.some.inj hother
        exact ⟨task.next s.exchange, by rw [hlookup, if_pos hid], fun hnext =>
          hidle (hacts.idle hnext).1⟩
      · exact ⟨other, by rw [hlookup, if_neg hid, hother], hidle⟩
    · obtain rfl := List.mem_singleton.1 hm
      exact ⟨task.next s.exchange, by rw [hlookup, if_pos rfl], fun hnext =>
        (hacts.idle hnext).2⟩

theorem Sound.step (h : s.Sound capacity) (choice : Choice) : (s.step choice).Sound capacity := by
  cases choice with
  | call op => exact h.call op
  | act id =>
    cases htask : s.tasks[id]? with
    | none => simpa only [Sharing.step, htask] using h
    | some task => simpa only [Sharing.step, htask] using h.act htask
  | switch running => exact h.switch running

theorem Sound.follow (h : s.Sound capacity) (schedule : List Choice) :
    (s.follow schedule).Sound capacity := by
  induction schedule generalizing s with
  | nil => exact h
  | cons choice schedule ih => exact ih (h.step choice)

/-- The queue is first in, first out and never overfull, no operation fails without a reason, and
once all operations are finished there was a notification for every container. -/
structure Accounted (capacity : Nat) (s : Sharing) : Prop where
  fifo : s.added = s.removed ++ s.exchange.queue.items
  size_le : s.exchange.queue.size ≤ max capacity 1
  /-- A container is handed back to who wanted to add it, when the queue was full and, if the
  operation could have waited, the flag was cleared. No step of the operation changed anything. -/
  handedBack : ∀ id (task : Task) c, s.tasks[id]? = some task →
    task.stage.answer? = some (.handedBack c) → task.op.container? = some c ∧
      (∃ m ∈ s.history, m.id = id ∧ m.answer? = some (.handedBack c) ∧ m.before.queue.isFull ∧
        (task.op = .deliver c → m.before.running = false)) ∧
      ∀ m ∈ s.history, m.id = id → m.after = m.before
  nothing : ∀ id (task : Task), s.tasks[id]? = some task → task.stage.answer? = some .nothing →
    ∃ waiting : Bool, task.op = .pop waiting ∧ ∃ m ∈ s.history, m.id = id ∧
      m.answer? = some .nothing ∧ m.before.queue.items = [] ∧ (waiting → m.before.queue.closed)
  told : (∀ task ∈ s.tasks, task.stage.isFinished) →
    s.exchange.increases = s.added.length ∧ s.exchange.decreases = s.removed.length

/-- Whatever operations share the queue, and in whatever order they take their steps, its containers
are accounted for. -/
theorem follow_accounted (capacity : Nat) (schedule : List Choice) :
    ((start capacity).follow schedule).Accounted capacity := by
  have hsound := (sound_start capacity).follow schedule
  generalize (start capacity).follow schedule = s at hsound
  refine {
    fifo := hsound.fifo
    size_le := hsound.capacity_eq ▸ hsound.bounded.size_le
    handedBack := ?_
    nothing := ?_
    told := ?_ }
  · intro id task c htask hanswer
    obtain ⟨m, hm, hid, hdecided, owed, -, hattempted⟩ := hsound.answered id task htask _ hanswer
    obtain ⟨hop, hfull, hcleared, -, -⟩ := hattempted.of_handedBack
    refine ⟨hop, ⟨m, hm, hid, hdecided, hfull, hcleared⟩, fun n hn hnid => ?_⟩
    obtain ⟨other, hother, hidle⟩ := hsound.idle n hn
    rw [hnid, htask] at hother
    obtain rfl := Option.some.inj hother
    exact hidle (by rw [Stage.isIdle, hanswer]; rfl)
  · intro id task htask hanswer
    obtain ⟨m, hm, hid, hdecided, owed, -, hattempted⟩ := hsound.answered id task htask _ hanswer
    obtain ⟨waiting, hop, hitems, hclosed⟩ := hattempted.of_nothing
    exact ⟨waiting, hop, m, hm, hid, hdecided, hitems, hclosed⟩
  · intro hfinished
    have hincreases := hsound.increases
    have hdecreases := hsound.decreases
    rw [owedBy_of_finished hfinished] at hincreases hdecreases
    exact ⟨hincreases, hdecreases⟩

end Sharing

end EventCamera
