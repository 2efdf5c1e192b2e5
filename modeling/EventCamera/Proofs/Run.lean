import EventCamera.Proofs.Books

/-! # Runs

A run makes the steps of a decoder one after the other and hands nothing on. What the steps come to
depends on the units and on nothing that the queue answers: the counts of what became of the
containers play no part in it. -/

namespace EventCamera

namespace Decoder

variable {dev : Device}

def withTotals (t : CommitTotals) (d : Decoder dev) : Decoder dev :=
  d.withCollector ({ · with totals := t })

def appliedWithTotals (t : CommitTotals) (a : Applied dev) : Applied dev :=
  { a with decoder := a.decoder.withTotals t }

variable (t : CommitTotals)

theorem capacityFor_withTotals (d : Decoder dev) (k : EventKind) (more : Nat) :
    (d.withTotals t).collector.capacityFor k more = d.collector.capacityFor k more := rfl

theorem push_withTotals (d : Decoder dev) (k : EventKind) (event : k.Record)
    (notices : List Notice) (forced : Option Forced) :
    (d.withTotals t).push k event notices forced =
      appliedWithTotals t (d.push k event notices forced) := by
  unfold push
  rw [capacityFor_withTotals]
  cases d.collector.capacityFor k 1 <;> rfl

theorem pushPixel_withTotals (d : Decoder dev) (x y : UInt16) (on : Bool) :
    (d.withTotals t).pushPixel x y on = appliedWithTotals t (d.pushPixel x y on) := by
  unfold pushPixel
  split
  · exact push_withTotals t d ..
  · rfl

theorem andThen_withTotals (a : Applied dev) {f : Decoder dev → Applied dev}
    (hf : ∀ d, f (d.withTotals t) = appliedWithTotals t (f d)) :
    Applied.andThen (appliedWithTotals t a) f = appliedWithTotals t (Applied.andThen a f) := by
  obtain ⟨d, notices, result⟩ := a
  cases result with
  | error e => rfl
  | ok forced =>
    simp only [Applied.andThen, appliedWithTotals, hf]

theorem forEach_withTotals {α : Type} {f : α → Decoder dev → Applied dev}
    (hf : ∀ a d, f a (d.withTotals t) = appliedWithTotals t (f a d)) (as : List α)
    (d : Decoder dev) :
    forEach f as (d.withTotals t) = appliedWithTotals t (forEach f as d) := by
  induction as generalizing d with
  | nil => rfl
  | cons a as ih =>
    simp only [forEach, hf]
    exact andThen_withTotals t _ ih

theorem pushGroup_withTotals (d : Decoder dev) (x base : UInt16) (mask : UInt8) (on : Bool) :
    (d.withTotals t).pushGroup x base mask on =
      appliedWithTotals t (d.pushGroup x base mask on) := by
  simp only [pushGroup, capacityFor_withTotals]
  cases d.collector.capacityFor .polarity 8 with
  | error e => rfl
  | ok capacity =>
    exact forEach_withTotals t (fun y d => pushPixel_withTotals t d x y on) (rowsOf base mask)
      (d.withCollector (·.withRoom .polarity capacity))

theorem applyComposite_withTotals (d : Decoder dev) (kind : CompositeKind)
    (step : CompositeStep) :
    (d.withTotals t).applyComposite kind step =
      appliedWithTotals t (d.applyComposite kind step) := by
  have hc : dev.compose (d.withTotals t).device kind step (d.withTotals t).clock.current =
      dev.compose d.device kind step d.clock.current := rfl
  simp only [applyComposite, hc]
  cases (dev.compose d.device kind step d.clock.current).outcome with
  | complete event => exact push_withTotals t { d with device := _ } ..
  | mismatch | pending | ignored => rfl

theorem apply_withTotals (code : Code) (d : Decoder dev) :
    apply code (d.withTotals t) = appliedWithTotals t (apply code d) := by
  cases code with
  | tick | reset => rfl
  | wrap multiplier =>
    have hc : (d.withTotals t).clock = d.clock := rfl
    simp only [apply, hc]
    split
    · exact push_withTotals t (d.withClock (·.wrap multiplier)) ..
    · rfl
  | pixel x y on => exact pushPixel_withTotals t d x y on
  | group x base mask on => exact pushGroup_withTotals t d x base mask on
  | special kind data => exact push_withTotals t d ..
  | composite kind step => exact applyComposite_withTotals t d kind step

theorem takeOut_withTotals (c : Collector) (forced : Option Forced) :
    Collector.takeOut { c with totals := t } forced =
      (c.takeOut forced).map fun (sealing, c) => (sealing, { c with totals := t }) := by
  unfold Collector.takeOut
  cases c.batch.pack c.clock.epoch c.clock.full c.memory <;> rfl

theorem collectorSettle_withTotals (c : Collector) (forced : Option Forced) :
    Collector.settle { c with totals := t } forced =
      (c.settle forced).map fun (sealing?, c) => (sealing?, { c with totals := t }) := by
  have hf : Collector.isFull { c with totals := t } = c.isFull := rfl
  simp only [Collector.settle, hf, takeOut_withTotals]
  split
  · rfl
  · cases c.takeOut forced <;> rfl

def settledWithTotals (s : Settled dev) : Settled dev :=
  { s with decoder := s.decoder.withTotals t }

theorem settled_withTotals (a : Applied dev) :
    settled (appliedWithTotals t a) = settledWithTotals t (settled a) := by
  obtain ⟨d, notices, result⟩ := a
  cases result with
  | error e => rfl
  | ok forced =>
    have hd : (d.withTotals t).collector = { d.collector with totals := t } := rfl
    simp only [settled, appliedWithTotals, Except.bind, hd, collectorSettle_withTotals]
    cases d.collector.settle forced with
    | error e => rfl
    | ok r =>
      simp only [Except.map]
      cases r.1.bind Sealing.fault? with
      | some e => rfl
      | none => cases forced <;> rfl

theorem make_withTotals (d : Decoder dev) (m : Move) :
    (d.withTotals t).make m = settledWithTotals t (d.make m) := by
  cases m with
  | unit unit =>
    have ha : (d.withTotals t).applyUnit unit = appliedWithTotals t (d.applyUnit unit) :=
      forEach_withTotals t (apply_withTotals t) (dev.classify d.device unit).codes
        { d with device := (dev.classify d.device unit).state }
    simp only [make, settle, ha, settled_withTotals]
  | rest =>
    have hp : (d.withTotals t).pending = d.pending := rfl
    have hd : (d.withTotals t).collector = { d.collector with totals := t } := rfl
    simp only [make, settleRest, hp, hd, takeOut_withTotals]
    split
    · rfl
    · cases d.collector.takeOut none <;> rfl

theorem totals_make (d : Decoder dev) (m : Move) :
    (d.make m).decoder.collector.totals = d.collector.totals := by
  have h := make_withTotals d.collector.totals d m
  exact congrArg (·.decoder.collector.totals) h

theorem additions_withTotals (past : List (List UInt8)) (codes : List Code) (d : Decoder dev)
    (k : EventKind) : additions past codes (d.withTotals t) k = additions past codes d k := by
  induction codes generalizing d with
  | nil => rfl
  | cons code codes ih =>
    simp only [additions, apply_withTotals, appliedWithTotals, ih]
    rfl

theorem make_count (d : Decoder dev) (hs : List Handover) (m : Move) :
    (d.count hs).make m = { d.make m with decoder := (d.make m).decoder.count hs } := by
  have hc (d : Decoder dev) : d.count hs = d.withTotals (d.collector.totals.count hs) := rfl
  rw [hc, hc, make_withTotals, totals_make]
  rfl

end Decoder

namespace Ledger

variable {dev : Device}

def count (b : Ledger dev) (hs : List Handover) : Ledger dev :=
  { b with decoder := b.decoder.count hs }

theorem advance_count (b : Ledger dev) (hs : List Handover) (m : Move) :
    (b.count hs).advance m = (b.advance m).count hs := by
  cases m with
  | unit unit =>
    have ha (k : EventKind) := Decoder.additions_withTotals
      (b.decoder.collector.totals.count hs) (b.units ++ [unit])
      (dev.classify b.decoder.device unit).codes
      { b.decoder with device := (dev.classify b.decoder.device unit).state } k
    simp only [advance, count, Decoder.make_count, ← ha]
    rfl
  | rest =>
    simp only [advance, count, Decoder.make_count]
    rfl

/-- Makes steps one after the other. -/
def run (b : Ledger dev) (moves : List Move) : Ledger dev :=
  moves.foldl advance b

theorem run_append (b : Ledger dev) (before after : List Move) :
    b.run (before ++ after) = (b.run before).run after :=
  List.foldl_append

theorem run_count (b : Ledger dev) (hs : List Handover) (moves : List Move) :
    (b.count hs).run moves = (b.run moves).count hs := by
  induction moves generalizing b with
  | nil => rfl
  | cons m moves ih =>
    change ((b.count hs).advance m).run moves = ((b.advance m).run moves).count hs
    rw [advance_count, ih]

theorem decoder_advance (b : Ledger dev) (m : Move) :
    (b.advance m).decoder = (b.decoder.make m).decoder := by
  cases m <;> rfl

/-- What no step breaks, whether it fails or not, holds after a run. -/
theorem decoder_run {P : Decoder dev → Prop} {b : Ledger dev}
    (hstep : ∀ (d : Decoder dev) (m : Move), P d → P (d.make m).decoder) (hb : P b.decoder)
    (moves : List Move) : P (b.run moves).decoder := by
  induction moves generalizing b with
  | nil => exact hb
  | cons m moves ih =>
    refine ih ?_
    rw [b.decoder_advance]
    exact hstep b.decoder m hb

theorem totals_run (b : Ledger dev) (moves : List Move) :
    (b.run moves).decoder.collector.totals = b.decoder.collector.totals :=
  decoder_run (P := fun d => d.collector.totals = b.decoder.collector.totals)
    (fun d m hd => (d.totals_make m).trans hd) rfl moves

theorem sealed_advance (b : Ledger dev) (m : Move) :
    (b.advance m).sealed = b.sealed ++ (b.decoder.make m).handedOn := by
  cases m <;> rfl

theorem sealed_prefix_run (b : Ledger dev) (moves : List Move) :
    b.sealed <+: (b.run moves).sealed := by
  induction moves generalizing b with
  | nil => exact List.prefix_rfl
  | cons m moves ih =>
    refine List.IsPrefix.trans ?_ (ih (b.advance m))
    rw [sealed_advance]
    exact List.prefix_append ..

/-- A run that is cut short has sealed the beginning of what it would have sealed. -/
theorem sealed_run_prefix {b : Ledger dev} {moves whole : List Move} (h : moves <+: whole) :
    (b.run moves).sealed <+: (b.run whole).sealed := by
  obtain ⟨rest, rfl⟩ := h
  rw [run_append]
  exact sealed_prefix_run ..

/-- What a run seals is sealed by one of its steps. -/
theorem exists_step_of_sealed {b : Ledger dev} {moves : List Move} {s : Sealed}
    (hs : s ∈ (b.run moves).sealed) : s ∈ b.sealed ∨
      ∃ past m, past ++ [m] <+: moves ∧ s ∈ ((b.run past).decoder.make m).handedOn := by
  induction moves generalizing b with
  | nil => exact .inl hs
  | cons m moves ih =>
    rcases ih hs with hs | ⟨past, m', hpast, hs⟩
    · rw [sealed_advance] at hs
      rcases List.mem_append.1 hs with hs | hs
      · exact .inl hs
      · exact .inr ⟨[], m, List.prefix_append [m] moves, hs⟩
    · exact .inr ⟨m :: past, m', List.cons_prefix_cons.2 ⟨rfl, hpast⟩, hs⟩

theorem mem_sealed_of_step {b : Ledger dev} {moves past : List Move} {m : Move}
    {s : Sealed} (hpast : past ++ [m] <+: moves)
    (hs : s ∈ ((b.run past).decoder.make m).handedOn) : s ∈ (b.run moves).sealed := by
  have hstays := sealed_run_prefix (b := b) hpast
  rw [run_append] at hstays
  have hnow : s ∈ ((b.run past).advance m).sealed := by
    rw [sealed_advance]
    exact List.mem_append_right _ hs
  exact hstays.subset hnow

/-- No step fails. -/
def Succeeds : Ledger dev → List Move → Prop
  | _, [] => True
  | b, m :: rest => (b.decoder.make m).result.isOk ∧ (b.advance m).Succeeds rest

theorem succeeds_append {b : Ledger dev} {before after : List Move} :
    b.Succeeds (before ++ after) ↔ b.Succeeds before ∧ (b.run before).Succeeds after := by
  induction before generalizing b with
  | nil => exact ⟨fun h => ⟨trivial, h⟩, And.right⟩
  | cons m before ih =>
    simp only [List.cons_append, Succeeds, ih, and_assoc]
    rfl

theorem succeeds_count {b : Ledger dev} {hs : List Handover} {moves : List Move} :
    (b.count hs).Succeeds moves ↔ b.Succeeds moves := by
  induction moves generalizing b with
  | nil => exact Iff.rfl
  | cons m moves ih =>
    simp only [Succeeds, advance_count, ih]
    simp only [count, Decoder.make_count]

/-- What no step breaks that does not fail, holds after a run. -/
theorem Succeeds.induction {P : Ledger dev → Prop} {b : Ledger dev} {moves : List Move}
    (h : b.Succeeds moves)
    (hstep : ∀ {b m}, P b → (b.decoder.make m).result.isOk → P (b.advance m)) (hb : P b) :
    P (b.run moves) := by
  induction moves generalizing b with
  | nil => exact hb
  | cons m moves ih => exact ih h.2 (hstep hb h.1)

end Ledger

/-! ## From calls to steps -/

/-- The steps that a call makes if nothing stops it. -/
def Call.moves (width : Nat) : Call → List Move
  | .decode bytes => (Decoder.units width bytes).map .unit
  | .flush => [.rest]

/-- The units that a call decodes if nothing stops it. -/
def Call.units (width : Nat) : Call → List (List UInt8)
  | .decode bytes => Decoder.units width bytes
  | .flush => []

def Move.unit? : Move → Option (List UInt8)
  | .unit bytes => some bytes
  | .rest => none

theorem filterMap_moves (width : Nat) (calls : List Call) :
    (calls.flatMap (Call.moves width)).filterMap Move.unit? = calls.flatMap (Call.units width) := by
  rw [List.filterMap_flatMap]
  refine congrArg (List.flatMap · calls) (funext fun c => ?_)
  cases c with
  | decode bytes =>
    simp only [Call.moves, Call.units, List.filterMap_map]
    exact List.filterMap_some
  | flush => rfl

theorem Ledger.units_run {dev : Device} (b : Ledger dev) (moves : List Move) :
    (b.run moves).units = b.units ++ moves.filterMap Move.unit? := by
  induction moves generalizing b with
  | nil => exact (List.append_nil _).symm
  | cons m moves ih =>
    refine (ih (b.advance m)).trans ?_
    cases m with
    | unit unit => exact List.append_assoc ..
    | rest => rfl

theorem Ledger.units_run_units {dev : Device} (b : Ledger dev) (units : List (List UInt8)) :
    (b.run (units.map .unit)).units = b.units ++ units := by
  rw [units_run, List.filterMap_map]
  exact congrArg _ List.filterMap_some

theorem Ledger.units_prefix_run {dev : Device} (b : Ledger dev) (moves : List Move) :
    b.units <+: (b.run moves).units :=
  b.units_run moves ▸ List.prefix_append ..

/-! ## What is added later -/

theorem Decoder.past_of_mem_additions {dev : Device} {past : List (List UInt8)} {codes : List Code}
    {d : Decoder dev} {k : EventKind} {a : Added k} (ha : a ∈ additions past codes d k) :
    a.past = past := by
  induction codes generalizing d with
  | nil => cases ha
  | cons code codes ih =>
    simp only [additions] at ha
    split at ha
    · cases ha
    · rcases List.mem_append.1 ha with ha | ha
      · obtain ⟨_, -, rfl⟩ := List.mem_map.1 ha
        rfl
      · exact ih ha

/-- A run adds its events behind those that were there, by units behind those that were decoded. -/
theorem Ledger.exists_added_run {dev : Device} (b : Ledger dev) (moves : List Move) (k : EventKind) :
    ∃ later, (b.run moves).added k = b.added k ++ later ∧
      ∀ a ∈ later, b.units.length < a.past.length := by
  induction moves generalizing b with
  | nil => exact ⟨[], (List.append_nil _).symm, nofun⟩
  | cons m moves ih =>
    obtain ⟨later, heq, hlater⟩ := ih (b.advance m)
    cases m with
    | rest => exact ⟨later, heq, hlater⟩
    | unit unit =>
      refine ⟨b.addedBy unit k ++ later, heq.trans (List.append_assoc ..), fun a ha => ?_⟩
      rcases List.mem_append.1 ha with ha | ha
      · rw [Decoder.past_of_mem_additions ha, List.length_append]
        exact Nat.lt_succ_self _
      · have hmore : (b.advance (.unit unit)).units.length = b.units.length + 1 :=
          List.length_append
        have := hlater a ha
        omega

end EventCamera
