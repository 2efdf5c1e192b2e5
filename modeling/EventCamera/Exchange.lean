import EventCamera.Container
import EventCamera.Queue

/-! # The exchange

What the acquiring side and the consumer share: the queue of sealed containers, the flag that
keeps the acquisition running, and the notifications that either side gives. A notification
follows the change of the queue that it is about, as a step of its own. -/

namespace EventCamera

/-- The shared state of an acquisition. -/
structure Exchange where
  queue : Queue Container
  running : Bool := true
  /-- Notifications that a container was added. -/
  increases : Nat := 0
  /-- Notifications that a container was removed. -/
  decreases : Nat := 0
  /-- Notifications that the acquisition ended by itself. -/
  shutdowns : Nat := 0
  /-- The number of containers at whose notification the flag is cleared, if at any. -/
  stopAt : Option Nat := none

/-- What became of a container that was offered to a queue. -/
inductive Push where
  | accepted
  | rejected
  /-- The queue is full, and the container waits for room. -/
  | waits
  deriving DecidableEq, Repr

/-- What taking a container came to. -/
inductive Pop where
  | taken (container : Container)
  | nothing
  /-- The queue is empty, and the consumer waits for a container. -/
  | waits

namespace Exchange

def start (queueCapacity : Nat) : Exchange :=
  { queue := .ofCapacity queueCapacity }

/-- Adds a container to the queue, without notification. -/
def insert (x : Exchange) (c : Container) : Exchange :=
  { x with queue := x.queue.push c }

def notifyIncrease (x : Exchange) : Exchange :=
  let increases := x.increases + 1
  { x with increases, running := x.running && x.stopAt != some increases }

def notifyDecrease (x : Exchange) : Exchange :=
  { x with decreases := x.decreases + 1 }

/-- Notifies that the acquisition ended by itself. -/
def notifyShutdown (x : Exchange) : Exchange :=
  { x with shutdowns := x.shutdowns + 1 }

def setRunning (x : Exchange) (running : Bool) : Exchange :=
  { x with running }

def close (x : Exchange) : Exchange :=
  { x with queue := x.queue.close }

def offer (x : Exchange) (c : Container) : Push × Exchange :=
  if x.queue.isFull then (.rejected, x) else (.accepted, (x.insert c).notifyIncrease)

/-- Adds a container that must not be lost: while there is no room it waits, unless the flag is
cleared. -/
def deliver (x : Exchange) (c : Container) : Push × Exchange :=
  if !x.queue.isFull then (.accepted, (x.insert c).notifyIncrease)
  else if x.running then (.waits, x)
  else (.rejected, x)

/-- Takes the oldest container, if there is one. -/
def take? (x : Exchange) : Option (Container × Exchange) :=
  x.queue.pop?.map fun (c, queue) => (c, notifyDecrease { x with queue })

/-- Takes the oldest container. A consumer that waits for one does so until the queue is
closed. -/
def pop (x : Exchange) (waiting : Bool) : Pop × Exchange :=
  match x.take? with
  | some (c, x) => (.taken c, x)
  | none => (if waiting && !x.queue.closed then .waits else .nothing, x)

/-- Takes as many containers as are there, up to a number of them. -/
def takeUpTo : Nat → Exchange → List Container × Exchange
  | 0, x => ([], x)
  | n + 1, x =>
    match x.take? with
    | some (c, x) =>
      let (rest, x) := takeUpTo n x
      (c :: rest, x)
    | none => ([], x)

def takeAll (x : Exchange) : List Container × Exchange :=
  (x.queue.items,
    { x with queue := x.queue.clear, decreases := x.decreases + x.queue.size })

/-- Removes every container, and says how many there were. -/
def drain (x : Exchange) : Nat × Exchange :=
  (x.queue.size, x.takeAll.2)

/-- The containers added and not yet taken, as a listener to the notifications counts them, in 64
bits. -/
def level (x : Exchange) : Nat :=
  (((x.increases : Int) - x.decreases) % 0x10000000000000000).toNat

end Exchange

end EventCamera
