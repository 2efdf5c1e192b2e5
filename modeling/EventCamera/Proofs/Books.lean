import EventCamera.Proofs.Settling

/-! # Keeping books

A session is a sequence of calls of a decoder. Its books tell what happened in it: the units that
were decoded, the events that each of them added, and the containers that were sealed. Keeping them
does not change what the decoder does. -/

namespace EventCamera

/-- A call of a decoder. -/
inductive Call where
  | decode (bytes : List UInt8)
  | flush
  deriving DecidableEq

def session {σ : Type} (call : Call → σ → Producer (σ × Except DecodeError Unit)) :
    List Call → σ → Producer (σ × List (Except DecodeError Unit))
  | [], s => return (s, [])
  | c :: rest, s => do
    let (s, result) ← call c s
    let (s, results) ← session call rest s
    return (s, result :: results)

def only (k : EventKind) (records : List k.Record) (l : EventKind) : List l.Record :=
  if h : k = l then h ▸ records else []

@[simp] theorem only_self (k : EventKind) (records : List k.Record) :
    only k records k = records := by
  simp [only]

theorem only_of_ne {k l : EventKind} (records : List k.Record) (h : k ≠ l) :
    only k records l = [] := by
  simp [only, h]

@[simp] theorem only_nil (k : EventKind) : only k [] = fun _ => [] := by
  funext l
  by_cases h : k = l
  · subst h
    exact only_self k []
  · exact only_of_ne [] h

theorem only_append (k : EventKind) (records later : List k.Record) :
    only k (records ++ later) = fun l => only k records l ++ only k later l := by
  funext l
  by_cases h : k = l
  · subst h
    simp only [only_self]
  · simp only [only_of_ne _ h, List.append_nil]

theorem length_only_le (k : EventKind) (records : List k.Record) (l : EventKind) :
    (only k records l).length ≤ records.length := by
  by_cases h : k = l
  · subst h
    exact Nat.le_of_eq (congrArg List.length (only_self k records))
  · rw [only_of_ne _ h]
    exact Nat.zero_le _

/-- An event in a buffer, the epoch of the buffer, and the units decoded up to the one that added
it. -/
structure Added (k : EventKind) where
  record : k.Record
  epoch : Int
  past : List (List UInt8)

def Added.stamped {k : EventKind} (a : Added k) : k.Record × Int :=
  (a.record, a.epoch)

def Buffer.stamped {k : EventKind} (b : Buffer k) : List (k.Record × Int) :=
  b.events.toList.map (·, b.epoch)

/-- A step of a decoder: a unit is decoded, or the rest is sealed. -/
inductive Move where
  | unit (bytes : List UInt8)
  | rest
  deriving DecidableEq

namespace Decoder

variable {dev : Device}

/-- Makes a call. What flushing came to is left out. -/
def call : Call → Decoder dev → Producer (Decoder dev × Except DecodeError Unit)
  | .decode bytes, d => d.decode bytes
  | .flush, d => do
    let (d, result) ← d.flush
    return (d, result.map fun _ => ())

/-- The buffer of a kind. -/
def buffer (d : Decoder dev) (k : EventKind) : Buffer k :=
  d.collector.batch.get k

/-- The changes of brightness in some rows of a column, as far as these are in the array. -/
def pixelsAt (d : Decoder dev) (x : UInt16) (rows : List UInt16) (on : Bool) :
    List PolarityEvent :=
  (rows.filter (dev.geometry.contains x)).map fun y => ⟨x, y, on, d.clock.current⟩

/-- The events that a code asks to add. -/
def asked (d : Decoder dev) : Code → (k : EventKind) → List k.Record
  | .tick _ | .reset => fun _ => []
  | .wrap multiplier =>
    if d.clock.endsEpoch multiplier then only .special [SpecialEvent.wrap] else fun _ => []
  | .pixel x y on => only .polarity (d.pixelsAt x [y] on)
  | .group x base mask on => only .polarity (d.pixelsAt x (rowsOf base mask) on)
  | .special kind data => only .special [⟨kind, data, d.clock.current⟩]
  | .composite kind step =>
    match (dev.compose d.device kind step d.clock.current).outcome with
    | .complete event => only event.kind [event.record]
    | .pending | .ignored | .mismatch .. => fun _ => []

/-- The events that codes add, up to the first failure. -/
def additions (past : List (List UInt8)) :
    List Code → Decoder dev → (k : EventKind) → List (Added k)
  | [], _, _ => []
  | code :: rest, d, k =>
    match (apply code d).result with
    | .error _ => []
    | .ok _ =>
      (d.asked code k).map (⟨·, (d.buffer k).epoch, past⟩) ++
        additions past rest (apply code d).decoder k

/-- What a step comes to. -/
def make (d : Decoder dev) : Move → Settled dev
  | .unit unit => d.settle unit
  | .rest => d.settleRest

end Decoder

/-! ## The start -/

theorem exists_of_bind_eq_ok {ε α β : Type} {x : Except ε α} {f : α → Except ε β} {r : β}
    (h : x >>= f = .ok r) : ∃ a, x = .ok a ∧ f a = .ok r := by
  cases x with
  | error e => cases h
  | ok a => exact ⟨a, rfl, h⟩

theorem exists_of_isOk {ε α : Type} {x : Except ε α} (h : x.isOk) : ∃ a, x = .ok a := by
  cases x with
  | error e => cases h
  | ok a => exact ⟨a, rfl⟩

theorem Buffer.ofKind_ok {k : EventKind} {limit memory : Nat} {epoch : Int} {b : Buffer k}
    (h : Buffer.ofKind k limit epoch memory = .ok b) :
    b.isEmpty ∧ b.epoch = epoch ∧ b.limit = limit ∧ 0 < limit := by
  unfold Buffer.ofKind Buffer.withCapacity Buffer.grant at h
  split at h
  · rename_i hgranted
    cases h
    exact ⟨rfl, rfl, rfl, by omega⟩
  · cases h

theorem Batch.ofKind_of_start {limit memory : Nat} {batch : Batch}
    (h : Batch.start limit memory = .ok batch) (k : EventKind) :
    Buffer.ofKind k limit 0 memory = .ok (batch.get k) := by
  unfold Batch.start at h
  obtain ⟨special, hspecial, h⟩ := exists_of_bind_eq_ok h
  obtain ⟨polarity, hpolarity, h⟩ := exists_of_bind_eq_ok h
  obtain ⟨frame, hframe, h⟩ := exists_of_bind_eq_ok h
  obtain ⟨imu6, himu6, h⟩ := exists_of_bind_eq_ok h
  cases h
  cases k
  · exact hspecial
  · exact hpolarity
  · exact hframe
  · exact himu6

/-- A decoder before its first unit. -/
structure Decoder.Fresh {dev : Device} (settings : Settings) (d : Decoder dev) : Prop where
  device_eq : d.device = dev.initial
  clock_eq : d.clock = dev.clock
  isEmpty : ∀ k, (d.buffer k).isEmpty
  epoch_eq : ∀ k, (d.buffer k).epoch = 0
  limit_eq : ∀ k, (d.buffer k).limit = settings.capacityLimit
  limit_pos : 0 < settings.capacityLimit
  totals_eq : d.collector.totals = {}
  sizeLimit_eq : d.collector.sizeLimit = settings.maxEvents
  interval_eq : d.collector.interval = settings.maxInterval
  memory_eq : d.collector.memory = settings.memory.later

theorem Decoder.start_ok {dev : Device} {settings : Settings} {d : Decoder dev}
    (h : Decoder.start dev settings = .ok d) : d.Fresh settings := by
  unfold Decoder.start Collector.start at h
  obtain ⟨collector, hcollector, h⟩ := exists_of_bind_eq_ok h
  obtain ⟨batch, hbatch, hcollector⟩ := exists_of_bind_eq_ok hcollector
  cases hcollector
  cases h
  have hstart (k : EventKind) := Buffer.ofKind_ok (Batch.ofKind_of_start hbatch k)
  exact ⟨rfl, rfl, fun k => (hstart k).1, fun k => (hstart k).2.1, fun k => (hstart k).2.2.1,
    (hstart .special).2.2.2, rfl, rfl, rfl, rfl⟩

/-! ## The books -/

/-- A decoder with its books. -/
structure Ledger (dev : Device) where
  decoder : Decoder dev
  /-- The units that were decoded. -/
  units : List (List UInt8) := []
  added : (k : EventKind) → List (Added k) := fun _ => []
  sealed : List Sealed := []

namespace Ledger

variable {dev : Device}

/-- The events that the next unit adds. -/
abbrev addedBy (b : Ledger dev) (unit : List UInt8) (k : EventKind) : List (Added k) :=
  let seen := dev.classify b.decoder.device unit
  Decoder.additions (b.units ++ [unit]) seen.codes { b.decoder with device := seen.state } k

/-- Makes a step, apart from handing on, and enters it in the books. -/
def advance (b : Ledger dev) (m : Move) : Ledger dev :=
  let s := b.decoder.make m
  match m with
  | .unit unit =>
    let past := b.units ++ [unit]
    let seen := dev.classify b.decoder.device unit
    { decoder := s.decoder
      units := past
      added := fun k => b.added k ++
        Decoder.additions past seen.codes { b.decoder with device := seen.state } k
      sealed := b.sealed ++ s.handedOn }
  | .rest => { b with decoder := s.decoder, sealed := b.sealed ++ s.handedOn }

/-- Decodes a unit and enters it in the books. -/
def decodeUnit (b : Ledger dev) (unit : List UInt8) :
    Producer (Ledger dev × Except GrowthError Outcome) := do
  let (decoder, result) ← b.decoder.decodeUnit unit
  return ({ b.advance (.unit unit) with decoder }, result)

/-- Makes a call and enters it in the books. -/
def call : Call → Ledger dev → Producer (Ledger dev × Except DecodeError Unit)
  | .decode bytes, b => Decoder.overRead (max dev.unitWidth 1) decodeUnit b bytes
  | .flush, b => do
    let (decoder, result) ← b.decoder.flush
    return ({ b.advance .rest with decoder }, result.map fun _ => ())

end Ledger

/-! ## The books change nothing -/

section Forget

variable {σ τ : Type} (f : σ → τ)

theorem overUnits_map {step : σ → List UInt8 → Producer (σ × Except GrowthError Outcome)}
    {step' : τ → List UInt8 → Producer (τ × Except GrowthError Outcome)}
    (h : ∀ s unit, Prod.map f id <$> step s unit = step' (f s) unit) (units : List (List UInt8))
    (s : σ) :
    Prod.map f id <$> Decoder.overUnits step units s = Decoder.overUnits step' units (f s) := by
  induction units generalizing s with
  | nil => rfl
  | cons unit units ih =>
    simp only [Decoder.overUnits, map_bind, ← h, bind_map_left]
    refine bind_congr fun ⟨s, result⟩ => ?_
    rcases result with e | (_ | _ | _ | _ | _)
    all_goals first | rfl | exact ih s

theorem overWhole_map {step : σ → List UInt8 → Producer (σ × Except GrowthError Outcome)}
    {step' : τ → List UInt8 → Producer (τ × Except GrowthError Outcome)}
    (h : ∀ s unit, Prod.map f id <$> step s unit = step' (f s) unit) (units : List (List UInt8))
    (s : σ) :
    Prod.map f id <$> Decoder.overWhole step s units = Decoder.overWhole step' (f s) units := by
  unfold Decoder.overWhole
  rw [← overUnits_map f h, bind_map_left, map_bind]
  refine bind_congr fun ⟨s, result⟩ => ?_
  cases result <;> rfl

theorem overRead_map (width : Nat)
    {step : σ → List UInt8 → Producer (σ × Except GrowthError Outcome)}
    {step' : τ → List UInt8 → Producer (τ × Except GrowthError Outcome)}
    (h : ∀ s unit, Prod.map f id <$> step s unit = step' (f s) unit) (s : σ)
    (bytes : List UInt8) :
    Prod.map f id <$> Decoder.overRead width step s bytes =
      Decoder.overRead width step' (f s) bytes := by
  unfold Decoder.overRead
  rw [map_bind]
  refine bind_congr fun running => ?_
  split
  · by_cases hpartial : bytes.length % width ≠ 0
    · simp only [if_pos hpartial, map_bind, overWhole_map f h]
    · simp only [if_neg hpartial, overWhole_map f h]
  · rfl

theorem session_map {call : Call → σ → Producer (σ × Except DecodeError Unit)}
    {call' : Call → τ → Producer (τ × Except DecodeError Unit)}
    (h : ∀ c s, Prod.map f id <$> call c s = call' c (f s)) (calls : List Call) (s : σ) :
    Prod.map f id <$> session call calls s = session call' calls (f s) := by
  induction calls generalizing s with
  | nil => rfl
  | cons c calls ih =>
    simp only [session, map_bind, ← h, bind_map_left]
    refine bind_congr fun ⟨s, result⟩ => ?_
    simp only [Prod.map, id, ← ih, bind_map_left]
    rfl

end Forget

/-- A call with books is a call, apart from its books. -/
theorem Ledger.call_forget {dev : Device} (c : Call) (b : Ledger dev) :
    Prod.map Ledger.decoder id <$> b.call c = b.decoder.call c := by
  cases c with
  | decode bytes =>
    refine overRead_map _ _ (fun b unit => ?_) b bytes
    simp only [Ledger.decodeUnit, map_bind]
    exact bind_pure _
  | flush =>
    simp only [Ledger.call, Decoder.call, map_bind]
    rfl

theorem Ledger.session_forget {dev : Device} (calls : List Call) (b : Ledger dev) :
    Prod.map Ledger.decoder id <$> session Ledger.call calls b =
      session Decoder.call calls b.decoder :=
  session_map _ Ledger.call_forget calls b

/-- Books can be kept of any call. -/
theorem Ledger.exists_trace {dev : Device} {c : Call} (b : Ledger dev) {steps : List Step}
    {d : Decoder dev} {result : Except DecodeError Unit}
    (h : Trace (b.decoder.call c) steps (d, result)) :
    ∃ b', Trace (b.call c) steps (b', result) ∧ b'.decoder = d := by
  rw [← call_forget] at h
  obtain ⟨⟨b', _⟩, hb, he⟩ := h.of_map
  cases he
  exact ⟨b', hb, rfl⟩

theorem Ledger.exists_execution {dev : Device} {calls : List Call} (b : Ledger dev)
    {x x' : Exchange} {log : List Occurrence} {d : Decoder dev}
    {results : List (Except DecodeError Unit)}
    (h : Execution (session Decoder.call calls b.decoder) x log (d, results) x') :
    ∃ b', Execution (session Ledger.call calls b) x log (b', results) x' ∧ b'.decoder = d := by
  rw [← session_forget] at h
  obtain ⟨⟨b', _⟩, hb, he⟩ := h.of_map
  cases he
  exact ⟨b', hb, rfl⟩

end EventCamera
