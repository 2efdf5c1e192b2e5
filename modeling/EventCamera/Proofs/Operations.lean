import EventCamera.Proofs.Running

/-! # Operations on the queue

An operation changes the queue in one go, while no one else can touch it. The notifications follow
one by one, and others may act before each of them. -/

namespace EventCamera

/-- What can be done with the queue of an exchange. -/
inductive Operation where
  | offer (container : Container)
  | deliver (container : Container)
  | pop (waiting : Bool)
  | close
  | drain

/-- What an operation answers. -/
inductive Answer where
  | added
  | handedBack (container : Container)
  | taken (container : Container)
  | nothing
  | closed
  | drained (count : Nat)

def Answer.isHandedBack : Answer → Bool
  | .handedBack _ => true
  | .added | .taken _ | .nothing | .closed | .drained _ => false

def Operation.container? : Operation → Option Container
  | .offer c | .deliver c => some c
  | .pop _ | .close | .drain => none

/-- What an operation came to while it had the queue for itself. -/
structure Attempt where
  exchange : Exchange
  answer : Answer
  /-- The number of notifications that are still to follow. -/
  owed : Nat := 0

/-- Has the queue for itself once. An operation that waits has come to nothing yet, and tries again
later. -/
def Operation.attempt (x : Exchange) : Operation → Option Attempt
  | .offer c =>
    some (if x.queue.isFull then ⟨x, .handedBack c, 0⟩ else ⟨x.insert c, .added, 1⟩)
  | .deliver c =>
    if !x.queue.isFull then some ⟨x.insert c, .added, 1⟩
    else if x.running then none
    else some ⟨x, .handedBack c, 0⟩
  | .pop waiting =>
    match x.queue.pop? with
    | some (c, queue) => some ⟨{ x with queue }, .taken c, 1⟩
    | none => if waiting && !x.queue.closed then none else some ⟨x, .nothing, 0⟩
  | .close => some ⟨x.close, .closed, 0⟩
  | .drain => some ⟨{ x with queue := x.queue.clear }, .drained x.queue.size, x.queue.size⟩

/-- Gives one of the notifications that an operation owes. -/
def Operation.notify (op : Operation) (x : Exchange) : Exchange :=
  if op.container?.isSome then x.notifyIncrease else x.notifyDecrease

/-! ## Operations alone -/

/-- What an operation comes to if no one acts before its notifications. -/
def Operation.alone (op : Operation) (x : Exchange) : Option (Answer × Exchange) :=
  (op.attempt x).map fun a => (a.answer, a.owed.repeat op.notify a.exchange)

def Push.answer? (c : Container) : Push → Option Answer
  | .accepted => some .added
  | .rejected => some (.handedBack c)
  | .waits => none

def Pop.answer? : Pop → Option Answer
  | .taken c => some (.taken c)
  | .nothing => some .nothing
  | .waits => none

/-- What the exchange makes of an operation. -/
def Exchange.operate (x : Exchange) : Operation → Option (Answer × Exchange)
  | .offer c => ((x.offer c).1.answer? c).map (·, (x.offer c).2)
  | .deliver c => ((x.deliver c).1.answer? c).map (·, (x.deliver c).2)
  | .pop waiting => (x.pop waiting).1.answer?.map (·, (x.pop waiting).2)
  | .close => some (.closed, x.close)
  | .drain => some (.drained x.drain.1, x.drain.2)

theorem Exchange.repeat_notifyDecrease (x : Exchange) (n : Nat) :
    n.repeat notifyDecrease x = { x with decreases := x.decreases + n } := by
  induction n with
  | zero => rfl
  | succ n ih =>
    rw [Nat.repeat, ih]
    rfl

/-- To change the queue and then to notify is what the exchange makes of an operation. -/
theorem Operation.alone_eq_operate (op : Operation) (x : Exchange) : op.alone x = x.operate op := by
  cases op with
  | offer c =>
    simp only [alone, attempt, Exchange.operate, Exchange.offer]
    by_cases hfull : x.queue.isFull <;> simp [hfull, Push.answer?] <;> rfl
  | deliver c =>
    simp only [alone, attempt, Exchange.operate, Exchange.deliver]
    by_cases hfull : x.queue.isFull <;> by_cases hrunning : x.running <;>
      simp [hfull, hrunning, Push.answer?] <;> rfl
  | pop waiting =>
    simp only [alone, attempt, Exchange.operate, Exchange.pop, Exchange.take?]
    cases x.queue.pop? with
    | some taken => rfl
    | none =>
      by_cases hwaits : waiting && !x.queue.closed
      · simp [hwaits, Pop.answer?]
      · simp [hwaits, Pop.answer?]
        rfl
  | close => rfl
  | drain =>
    have hrepeat := Exchange.repeat_notifyDecrease { x with queue := x.queue.clear } x.queue.size
    exact congrArg (fun x' => some (Answer.drained x.queue.size, x')) hrepeat

/-! ## Attempts -/

/-- All that an attempt can come to. -/
inductive Attempted (x : Exchange) : Operation → Attempt → Prop where
  | added {op c} : op.container? = some c → x.queue.isFull = false →
      Attempted x op ⟨x.insert c, .added, 1⟩
  | handedBack {op c} : op.container? = some c → x.queue.isFull →
      (op = .deliver c → x.running = false) → Attempted x op ⟨x, .handedBack c, 0⟩
  | taken {waiting c items} : x.queue.items = c :: items →
      Attempted x (.pop waiting) ⟨{ x with queue := { x.queue with items } }, .taken c, 1⟩
  | nothing {waiting : Bool} : x.queue.items = [] → (waiting → x.queue.closed) →
      Attempted x (.pop waiting) ⟨x, .nothing, 0⟩
  | closed : Attempted x .close ⟨x.close, .closed, 0⟩
  | drained : Attempted x .drain
      ⟨{ x with queue := x.queue.clear }, .drained x.queue.size, x.queue.size⟩

theorem Operation.attempted {op : Operation} {x : Exchange} {a : Attempt}
    (h : op.attempt x = some a) : Attempted x op a := by
  cases op with
  | offer c =>
    cases h
    split
    · exact .handedBack rfl ‹_› nofun
    · exact .added rfl (Bool.eq_false_iff.2 ‹_›)
  | deliver c =>
    simp only [attempt] at h
    split at h
    · cases h
      exact .added rfl (by simpa using ‹(!x.queue.isFull) = true›)
    · split at h <;> cases h
      exact .handedBack rfl (by simpa using ‹¬(!x.queue.isFull) = true›) fun _ =>
        Bool.eq_false_iff.2 ‹_›
  | pop waiting =>
    simp only [attempt, Queue.pop?] at h
    cases hitems : x.queue.items with
    | nil =>
      simp only [hitems] at h
      split at h <;> rename_i hwaits <;> cases h
      exact .nothing hitems fun hwaiting => by simpa [hwaiting] using hwaits
    | cons c items =>
      simp only [hitems] at h
      cases h
      exact .taken hitems
  | close =>
    cases h
    exact .closed
  | drain =>
    cases h
    exact .drained

theorem Attempted.capacity_eq {op : Operation} {x : Exchange} {a : Attempt}
    (h : Attempted x op a) : a.exchange.queue.capacity = x.queue.capacity := by
  cases h <;> rfl

theorem Attempted.decreases_eq {op : Operation} {x : Exchange} {a : Attempt}
    (h : Attempted x op a) : a.exchange.decreases = x.decreases := by
  cases h <;> rfl

/-- A container is handed back if the queue is full, and if the flag is cleared too where it would
have waited. Nothing changes then. -/
theorem Attempted.of_handedBack {op : Operation} {x x' : Exchange} {c : Container} {owed : Nat}
    (h : Attempted x op ⟨x', .handedBack c, owed⟩) :
    op.container? = some c ∧ x.queue.isFull ∧ (op = .deliver c → x.running = false) ∧ x' = x ∧
      owed = 0 := by
  cases h with
  | handedBack hop hfull hcleared => exact ⟨hop, hfull, hcleared, rfl, rfl⟩

theorem Attempted.of_nothing {op : Operation} {x x' : Exchange} {owed : Nat}
    (h : Attempted x op ⟨x', .nothing, owed⟩) :
    ∃ waiting : Bool, op = .pop waiting ∧ x.queue.items = [] ∧ (waiting → x.queue.closed) := by
  cases h with
  | @nothing waiting hitems hclosed => exact ⟨waiting, rfl, hitems, hclosed⟩

theorem Operation.waits {op : Operation} {x : Exchange} (h : op.attempt x = none) :
    (∃ c, op = .deliver c ∧ x.queue.isFull ∧ x.running) ∨
      op = .pop true ∧ x.queue.items = [] ∧ x.queue.closed = false := by
  cases op with
  | offer | close | drain => cases h
  | deliver c =>
    simp only [attempt] at h
    split at h <;> rename_i hfull
    · cases h
    · split at h
      · exact .inl ⟨c, rfl, by simpa using hfull, ‹_›⟩
      · cases h
  | pop waiting =>
    simp only [attempt, Queue.pop?] at h
    cases hitems : x.queue.items with
    | nil =>
      simp only [hitems] at h
      split at h <;> rename_i hwaits
      · obtain ⟨rfl, hclosed⟩ := Bool.and_eq_true_iff.1 hwaits
        exact .inr ⟨rfl, rfl, by simpa using hclosed⟩
      · cases h
    | cons c items =>
      simp only [hitems] at h
      cases h

end EventCamera
