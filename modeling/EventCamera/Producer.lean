import EventCamera.Exchange
import EventCamera.Notice

/-! # The producing side

What the acquiring side does to the exchange, as a tree of single actions: each says what is
asked or done, and how to go on with the answer. Between two actions anything may happen to the
exchange. `run` lets a producer act without interruption. -/

namespace EventCamera

/-- One action on the exchange. -/
inductive Action where
  /-- Asks whether the acquisition is still wanted. -/
  | isRunning
  /-- Asks how many containers were added and not yet taken. -/
  | level
  /-- Adds a container if there is room; answers whether it was added. -/
  | offer (container : Container)
  /-- Adds a container, waiting for room; answers whether it was added. -/
  | deliver (container : Container)
  | report (notice : Notice)
  /-- Clears the flag that keeps the acquisition running. -/
  | stop
  /-- Notifies that the acquisition ended by itself. -/
  | announceEnd
  | close

/-- What an action answers. -/
abbrev Action.Answer : Action → Type
  | .isRunning | .offer _ | .deliver _ => Bool
  | .level => Nat
  | .report _ | .stop | .announceEnd | .close => Unit

/-- Actions that end in a result. -/
inductive Producer (α : Type) where
  | done (result : α)
  | act (action : Action) (next : action.Answer → Producer α)

namespace Producer

variable {α β : Type}

def bind : Producer α → (α → Producer β) → Producer β
  | done result, f => f result
  | act action next, f => act action fun answer => (next answer).bind f

instance : Monad Producer where
  pure := done
  bind := bind

def perform (action : Action) : Producer action.Answer :=
  act action done

def reportAll (notices : List Notice) : Producer Unit :=
  notices.forM fun notice => perform (.report notice)

/-- How far a producer came. -/
inductive Progress (α : Type) where
  | finished (result : α)
  /-- The first action of the rest waits for room in the queue. -/
  | waiting (rest : Producer α)

/-- What a producer did without interruption. -/
structure Run (α : Type) where
  progress : Progress α
  exchange : Exchange
  notices : List Notice := []
  /-- The containers taken meanwhile to make room. -/
  taken : List Container := []

/-- Runs a producer until it ends or waits for room. Up to `helping` times, a consumer makes room
for a container that waits. -/
def run : Producer α → Exchange → (helping : Nat) → Run α
  | done result, x, _ => { progress := .finished result, exchange := x }
  | act .isRunning next, x, helping => (next x.running).run x helping
  | act .level next, x, helping => (next x.level).run x helping
  | act (.offer c) next, x, helping =>
    let (push, x) := x.offer c
    (next (push == .accepted)).run x helping
  | act (.deliver c) next, x, helping =>
    match x.deliver c, helping, x.take? with
    | (.accepted, x), _, _ => (next true).run x helping
    | (.rejected, x), _, _ => (next false).run x helping
    | (.waits, _), helping + 1, some (oldest, x) =>
      let rest := (next true).run ((x.insert c).notifyIncrease) helping
      { rest with taken := oldest :: rest.taken }
    | (.waits, x), _, _ => { progress := .waiting (act (.deliver c) next), exchange := x }
  | act (.report notice) next, x, helping =>
    let rest := (next ()).run x helping
    { rest with notices := notice :: rest.notices }
  | act .stop next, x, helping => (next ()).run (x.setRunning false) helping
  | act .announceEnd next, x, helping => (next ()).run x.notifyShutdown helping
  | act .close next, x, helping => (next ()).run x.close helping

/-- Delivers containers one after the other and closes the queue; the result says how many were
added. -/
def deliverAll : List Container → Producer Nat
  | [] => do
    perform .close
    return 0
  | c :: rest => do
    let accepted ← perform (.deliver c)
    let others ← deliverAll rest
    return if accepted then others + 1 else others

end Producer

end EventCamera
