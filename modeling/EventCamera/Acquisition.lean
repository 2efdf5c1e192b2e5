import EventCamera.Decoder
import EventCamera.Transport

/-! # Acquisitions

A worker reads a transport turn by turn, decodes the whole units it has got, and keeps the bytes
of an incomplete one for the next turn. When the transport ends, the worker seals what is left and
closes the queue. The consumer takes containers meanwhile, and may stop the acquisition. -/

namespace EventCamera

/-- Why an acquisition could not be started or stopped. -/
inductive AcquisitionError where
  | settings (cause : SettingsError)
  | decoder (cause : DecodeError)
  /-- The worker was taken down by its transport. -/
  | crashed
  deriving DecidableEq, Repr

def AcquisitionError.message : AcquisitionError → String
  | .settings cause => "invalid configuration: " ++ cause.message
  | .decoder cause => "failed to set up decoder: " ++ cause.message
  | .crashed => "acquisition thread panicked"

/-- A failure and what caused it, the last cause at the end. -/
def AcquisitionError.chain (e : AcquisitionError) : List String :=
  e.message :: match e with
    | .settings cause => [cause.message]
    | .decoder (.allocation cause) => [(DecodeError.allocation cause).message, cause.message]
    | .crashed => []

/-- What a worker did from its start to its end. -/
structure Totals where
  /-- Calls of the decoder. -/
  buffers : Nat := 0
  bytes : Nat := 0
  decodeErrors : Nat := 0
  commits : CommitTotals := {}
  transportEnded : Bool := false
  deriving DecidableEq, Repr

/-- The state of a worker between two turns. -/
structure Worker (dev : Device) (transport : Transport) where
  decoder : Decoder dev
  transport : transport.State
  /-- The bytes there is room for. -/
  transferSize : Nat
  /-- Whether the transport is read only while the consumer has caught up. -/
  paced : Bool := false
  /-- The bytes of an incomplete unit. -/
  carried : List UInt8 := []
  totals : Totals := {}

/-- Parts bytes into those of whole units and those of an incomplete one. -/
def partUnits (width : Nat) (bytes : List UInt8) : List UInt8 × List UInt8 :=
  bytes.splitAt (bytes.length - bytes.length % width)

theorem partUnits_append (width : Nat) (bytes : List UInt8) :
    (partUnits width bytes).1 ++ (partUnits width bytes).2 = bytes := by
  simp [partUnits, List.splitAt_eq]

/-- How a turn ended. -/
inductive Turn (dev : Device) (transport : Transport) where
  | again (worker : Worker dev transport)
  | finished (worker : Worker dev transport)
  | crashed

namespace Worker

variable {dev : Device} {t : Transport}

/-- Checks the settings and sets up a worker that has not read anything. -/
def start (dev : Device) (settings : Settings) (t : Transport) (transport : t.State)
    (paced : Bool) : Except AcquisitionError (Worker dev t) := do
  settings.validate.mapError .settings
  (settings.validateUnitWidth dev.unitWidth).mapError .settings
  let decoder ← (Decoder.start dev settings).mapError (.decoder ∘ .allocation)
  return { decoder, transport, transferSize := settings.transferSize, paced }

/-- How many containers the consumer has to take before the transport is read. -/
def backlog (w : Worker dev t) : Producer Nat :=
  if w.paced then Producer.perform .level else pure 0

def read (w : Worker dev t) : Producer (Reading × Worker dev t) := do
  let backlog ← w.backlog
  if 0 < backlog then
    return (.unavailable, w)
  else
    let (reading, transport) := t.read w.transport (w.transferSize - w.carried.length)
    return (reading, { w with transport })

/-- Decodes the whole units among the bytes carried so far and those of a read. -/
def receive (w : Worker dev t) (bytes : List UInt8) : Producer (Worker dev t) := do
  let (whole, carried) := partUnits dev.unitWidth (w.carried ++ bytes)
  let totals := { w.totals with bytes := w.totals.bytes + bytes.length }
  let w := { w with carried, totals }
  if whole.isEmpty then
    return w
  else
    let (decoder, result) ← w.decoder.decode whole
    let failed := if result.isOk then 0 else 1
    let totals := { w.totals with
      buffers := w.totals.buffers + 1
      decodeErrors := w.totals.decodeErrors + failed }
    return { w with decoder, totals }

def total (w : Worker dev t) : Totals :=
  { w.totals with commits := w.decoder.collector.totals }

/-- Ends after the transport did: seals what was collected, ends the acquisition, and closes the
queue. The bytes of an incomplete unit are dropped. -/
def windUp (w : Worker dev t) : Producer (Worker dev t) := do
  let (decoder, _) ← w.decoder.flush
  Producer.perform .stop
  Producer.perform .announceEnd
  Producer.perform .close
  return { w with decoder, totals := { w.totals with transportEnded := true } }

def respond (w : Worker dev t) : Reading → Producer (Turn dev t)
  | .unavailable => return .again w
  | .data [] | .lost => return .finished (← w.windUp)
  | .data bytes => return .again (← w.receive bytes)
  | .crashed => return .crashed

/-- One turn: reads once, if the acquisition is still wanted, and acts on the answer. -/
def turn (w : Worker dev t) : Producer (Turn dev t) := do
  if ← Producer.perform .isRunning then
    let (reading, w) ← w.read
    w.respond reading
  else
    return .finished w

end Worker

/-- What a worker does after a turn: the next one, if there is one. -/
def Turn.next {dev : Device} {t : Transport} : Turn dev t → Producer (Turn dev t)
  | .again worker => worker.turn
  | ended => pure ended

/-- An acquisition that was started. -/
structure Acquisition (dev : Device) (transport : Transport) where
  exchange : Exchange
  /-- What is left of the turn of the worker. -/
  turn : Producer (Turn dev transport)
  /-- Whether taking the next container waits for one. -/
  blockingPop : Bool
  transferSize : Nat
  /-- What the first stop reported. -/
  totals? : Option Totals := none

namespace Acquisition

variable {dev : Device} {t : Transport}

/-- Checks the settings and starts an acquisition. -/
def start (dev : Device) (settings : Settings) (t : Transport) (transport : t.State)
    (paced : Bool := false) : Except AcquisitionError (Acquisition dev t) := do
  let worker ← Worker.start dev settings t transport paced
  return {
    exchange := .start settings.queueCapacity
    turn := .done (.again worker)
    blockingPop := settings.blockingPop
    transferSize := settings.transferSize }

/-- How the last turn of the worker ended; `none` within a turn. -/
def turn? (a : Acquisition dev t) : Option (Turn dev t) :=
  match a.turn with
  | .done turn => some turn
  | .act .. => none

def isOver (a : Acquisition dev t) : Bool :=
  match a.turn? with
  | some (.finished _) | some .crashed => true
  | _ => false

/-- Lets the worker go on to the end of a turn, or until it waits for room. Also says which
containers a consumer took that helps it with room, up to `helping` times. -/
def advance (a : Acquisition dev t) (helping : Nat) : List Container × Acquisition dev t :=
  let rest := match a.turn with
    | .done turn => turn.next
    | .act action next => .act action next
  let run := rest.run a.exchange helping
  let turn := match run.progress with
    | .finished turn => .done turn
    | .waiting rest => rest
  (run.taken, { a with exchange := run.exchange, turn })

/-- Lets the worker go on alone until it has come to its end, waits for room, or enough was done,
for a number of turns at most. -/
def goOn (enough : Acquisition dev t → Bool) : (turns : Nat) → Acquisition dev t → Acquisition dev t
  | 0, a => a
  | turns + 1, a =>
    if a.isOver || enough a then a
    else
      let a := (a.advance 0).2
      if a.turn?.isSome then goOn enough turns a else a

/-- Takes every container from a worker that goes on until it has come to its end, for a number of
turns at most. The consumer has always caught up after a turn. -/
def takeAlong : (turns : Nat) → Acquisition dev t → List Container × Acquisition dev t
  | 0, a => ([], a)
  | turns + 1, a =>
    if a.isOver then ([], a)
    else
      let (helped, a) := a.advance a.transferSize
      let (taken, exchange) := a.exchange.takeAll
      let (later, a) := takeAlong turns { a with exchange }
      (helped ++ taken ++ later, a)

/-- Takes the next container, if there is one. A worker that waited for room goes on then. -/
def next (a : Acquisition dev t) (waiting : Bool) : Pop × Acquisition dev t :=
  let (pop, exchange) := a.exchange.pop waiting
  let a := { a with exchange }
  (pop, if a.turn?.isSome then a else (a.advance 0).2)

/-- Stops the acquisition: the worker ends its turn, and the containers that are left are dropped.
A reset that waits for room is abandoned. Stopping again changes nothing. -/
def stop (a : Acquisition dev t) : Except AcquisitionError Totals × Acquisition dev t :=
  match a.totals? with
  | some totals => (.ok totals, a)
  | none =>
    let a := { a with exchange := (a.exchange.setRunning false).close, totals? := some {} }
    let a := ((a.advance 0).2.advance 0).2
    match a.turn? with
    | some (.finished worker) =>
      let totals := worker.total
      (.ok totals, { a with exchange := a.exchange.drain.2, totals? := some totals })
    | _ => (.error .crashed, a)

end Acquisition

end EventCamera
