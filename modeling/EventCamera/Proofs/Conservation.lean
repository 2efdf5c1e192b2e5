import EventCamera.Proofs.Applying
import EventCamera.Proofs.Sealing
import EventCamera.Wire.Dvs128

/-! # Conservation of events

Every event that was added is in a sealed container or waits in its buffer, once and in the order
in which it was added, with the epoch that it was added in. -/

namespace EventCamera

def Sealed.stamped (s : Sealed) (k : EventKind) : List (k.Record × Int) :=
  match s with
  | .data c => c.stamped k
  | .reset _ => []

/-- The events of a kind in the containers of events, in the order of sealing. -/
def sealedEvents (containers : List Sealed) (k : EventKind) : List (k.Record × Int) :=
  containers.flatMap (·.stamped k)

theorem sealedEvents_append (before after : List Sealed) (k : EventKind) :
    sealedEvents (before ++ after) k = sealedEvents before k ++ sealedEvents after k :=
  List.flatMap_append

theorem Sealing.sealedEvents_handedOn (s : Sealing) (k : EventKind) :
    sealedEvents s.handedOn k = s.data.stamped k := by
  have hreset : sealedEvents (s.reset?.toList.map .reset) k = [] := by
    cases s.reset? <;> rfl
  rw [handedOn, sealedEvents_append, hreset, List.append_nil]
  by_cases he : s.data.isEmpty
  · rw [if_pos he, Container.stamped_of_isEmpty he]
    rfl
  · rw [if_neg he]
    exact List.append_nil _

/-- Of the containers of a sealing, one holds events, if there are any. -/
theorem Sealing.data_mem_handedOn {s : Sealing} {c : Container} (h : .data c ∈ s.handedOn) :
    c = s.data ∧ s.data.isEmpty = false := by
  unfold handedOn at h
  by_cases he : s.data.isEmpty
  · simp [he] at h
  · simp [he] at h
    exact ⟨h, Bool.eq_false_iff.2 he⟩

theorem Collector.Emptied.sealedEvents_append {c c' : Collector} {s : Sealing} (h : c.Emptied s c')
    (k : EventKind) : sealedEvents s.handedOn k ++ (c'.batch.get k).stamped =
      (c.batch.get k).stamped := by
  rw [s.sealedEvents_handedOn, h.stamped_data, Buffer.isEmpty_iff.1 (h.fresh_isEmpty k),
    List.append_nil]

namespace Decoder

variable {dev : Device} {a : Applied dev} {s : Settled dev}

theorem Made.sealedEvents_append (h : Made a s) (k : EventKind) :
    sealedEvents s.handedOn k ++ (s.decoder.buffer k).stamped = (a.decoder.buffer k).stamped := by
  cases h with
  | failed e hd _ hnothing => rw [hnothing, hd, sealedEvents, List.flatMap_nil, List.nil_append]
  | kept _ hd hr => rw [Settled.handedOn_of_ok hr, hd]; rfl
  | sealed _ ht hr =>
    rw [Settled.handedOn_of_ok hr]
    exact ht.sealedEvents_append k
  | cut e _ he _ _ _ heq =>
    rw [heq]
    exact he.sealedEvents_append k

theorem Made.exists_emptied (h : Made a s) {c : Container} (hc : .data c ∈ s.handedOn) :
    ∃ forced sealing, a.result = .ok forced ∧
      a.decoder.collector.Emptied sealing s.decoder.collector ∧ c = sealing.data ∧
      sealing.data.isEmpty = false := by
  cases h with
  | failed e _ _ hnothing =>
    rw [hnothing] at hc
    cases hc
  | kept _ _ hr =>
    rw [Settled.handedOn_of_ok hr] at hc
    cases hc
  | sealed ha ht hr =>
    rw [Settled.handedOn_of_ok hr] at hc
    exact ⟨_, _, ha, ht.toEmptied, Sealing.data_mem_handedOn hc⟩
  | cut e ha he _ _ _ heq => exact ⟨_, _, ha, he, Sealing.data_mem_handedOn (heq ▸ hc)⟩

theorem Made.filled (h : Made a s) {c : Container} (hc : .data c ∈ s.handedOn) : c.Filled := by
  obtain ⟨_, _, _, he, rfl, hne⟩ := h.exists_emptied hc
  exact he.filled hne

theorem Made.stamped_of_mem (h : Made a s) {c : Container} (hc : .data c ∈ s.handedOn)
    (k : EventKind) : c.stamped k = (a.decoder.buffer k).stamped := by
  obtain ⟨_, _, _, he, rfl, -⟩ := h.exists_emptied hc
  exact he.stamped_data k

/-- A step that does not fail hands on a container of events at most, and behind it the container of a
reset if one was forced. There are no events to hand on only if nothing was forced or nothing waited. -/
theorem Made.exists_handedOn (h : Made a s) (hok : s.result.isOk) {forced : Option Forced}
    (ha : a.result = .ok forced) : ∃ data? reset? : Option Container,
      s.handedOn = data?.toList.map .data ++ reset?.toList.map .reset ∧
      (reset?.isSome ↔ forced = some .reset) ∧
      (data? = none → forced.isSome → ∀ k, (a.decoder.buffer k).stamped = []) := by
  cases h.completed hok with
  | kept ha' _ hr =>
    obtain rfl := Except.ok.inj (ha.symm.trans ha')
    exact ⟨none, none, Settled.handedOn_of_ok hr, by simp, by simp⟩
  | @sealed _ sealing ha' ht hr =>
    obtain rfl := Except.ok.inj (ha.symm.trans ha')
    have hreset : sealing.reset?.isSome ↔ forced = some .reset := by
      rw [ht.reset_eq]
      split <;> simp_all
    simp only [Settled.handedOn_of_ok hr, Option.elim_some, Sealing.handedOn]
    by_cases he : sealing.data.isEmpty
    · rw [if_pos he]
      refine ⟨none, sealing.reset?, rfl, hreset, fun _ _ k => ?_⟩
      exact (ht.stamped_data k).symm.trans (Container.stamped_of_isEmpty he k)
    · rw [if_neg he]
      exact ⟨some sealing.data, sealing.reset?, rfl, hreset, by simp⟩

end Decoder

namespace Ledger

variable {dev : Device} {b : Ledger dev}

/-- The events added so far are those that were sealed and those that wait, in this order. -/
structure Conserved (b : Ledger dev) : Prop where
  events : ∀ k, sealedEvents b.sealed k ++ (b.decoder.buffer k).stamped =
    (b.added k).map Added.stamped
  filled : ∀ c, .data c ∈ b.sealed → c.Filled

theorem Conserved.advance (h : b.Conserved) (m : Move) : (b.advance m).Conserved := by
  have hmade := b.decoder.make_made m
  have hfilled : ∀ c, .data c ∈ b.sealed ++ (b.decoder.make m).handedOn → c.Filled := by
    intro c hc
    rcases List.mem_append.1 hc with hc | hc
    · exact h.filled c hc
    · exact hmade.filled hc
  have hevents (k : EventKind) :
      sealedEvents (b.sealed ++ (b.decoder.make m).handedOn) k ++
          ((b.decoder.make m).decoder.buffer k).stamped =
        sealedEvents b.sealed k ++ ((b.decoder.moved m).decoder.buffer k).stamped := by
    rw [sealedEvents_append, List.append_assoc, hmade.sealedEvents_append]
  cases m with
  | unit unit =>
    refine ⟨fun k => (hevents k).trans ?_, hfilled⟩
    change _ = (b.added k ++ b.addedBy unit k).map Added.stamped
    rw [List.map_append, ← h.events k, List.append_assoc]
    exact congrArg _ (b.stamped_applyUnit unit k)
  | rest => exact ⟨fun k => (hevents k).trans (h.events k), hfilled⟩

theorem Conserved.run (h : b.Conserved) (moves : List Move) : (b.run moves).Conserved := by
  induction moves generalizing b with
  | nil => exact h
  | cons m moves ih => exact ih (h.advance m)

theorem Conserved.count (h : b.Conserved) (hs : List Handover) : (b.count hs).Conserved :=
  ⟨h.events, h.filled⟩

/-- What a container holds was added. -/
theorem Conserved.exists_added (h : b.Conserved) {c : Container} (hc : .data c ∈ b.sealed)
    {k : EventKind} {e : k.Record × Int} (he : e ∈ c.stamped k) :
    ∃ a ∈ b.added k, a.stamped = e := by
  have hmem : e ∈ sealedEvents b.sealed k := List.mem_flatMap.2 ⟨_, hc, he⟩
  have hadded := List.mem_append_left (b.decoder.buffer k).stamped hmem
  rw [h.events k] at hadded
  exact List.mem_map.1 hadded

theorem conserved_start {settings : Settings} {d : Decoder dev}
    (h : Decoder.start dev settings = .ok d) : Conserved { decoder := d } := by
  refine ⟨fun k => ?_, nofun⟩
  rw [Buffer.isEmpty_iff.1 ((Decoder.start_ok h).isEmpty k)]
  rfl

end Ledger

/-- A session in which no call failed: it went through some of its units, and through all of them if
the acquisition was always wanted. -/
structure Ledger.Flawless {dev : Device} (d : Decoder dev) (calls : List Call)
    (log : List Occurrence) (b : Ledger dev) (moves : List Move) : Prop where
  end_eq : b = (({ decoder := d } : Ledger dev).run moves).count (handovers (stepsOf log))
  succeeds : ({ decoder := d } : Ledger dev).Succeeds moves
  units_eq : Steady (stepsOf log) → b.units = calls.flatMap (Call.units dev.unitWidth)
  sealed_eq : b.sealed = (handovers (stepsOf log)).map Handover.sealed
  conserved : b.Conserved

theorem Ledger.exists_flawless {dev : Device} {settings : Settings} {d d' : Decoder dev}
    {calls : List Call} {x x' : Exchange} {log : List Occurrence}
    {results : List (Except DecodeError Unit)} (hstart : Decoder.start dev settings = .ok d)
    (h : Execution (session Decoder.call calls d) x log (d', results) x')
    (hok : ∀ r ∈ results, r.isOk) :
    ∃ b moves, Execution (session Ledger.call calls { decoder := d }) x log (b, results) x' ∧
      b.decoder = d' ∧ Flawless d calls log b moves := by
  obtain ⟨b, hb, hd⟩ := exists_execution { decoder := d } h
  obtain ⟨moves, hcourse, hwhole⟩ := trace_session hb.trace
  obtain ⟨hsucceeds, hall⟩ := hwhole hok
  refine ⟨b, moves, hb, hd, hcourse.end_eq, hsucceeds, fun hsteady => ?_, hcourse.sealed_eq, ?_⟩
  · rw [hcourse.end_eq, ← filterMap_moves, ← hall hsteady]
    exact units_run _ moves
  · rw [hcourse.end_eq]
    exact ((conserved_start hstart).run moves).count _

/-- A session in which no call failed and the acquisition was always wanted: it went through all of
its units. -/
structure Ledger.Whole {dev : Device} (d : Decoder dev) (calls : List Call) (log : List Occurrence)
    (b : Ledger dev) (moves : List Move) : Prop where
  end_eq : b = (({ decoder := d } : Ledger dev).run moves).count (handovers (stepsOf log))
  succeeds : ({ decoder := d } : Ledger dev).Succeeds moves
  units_eq : b.units = calls.flatMap (Call.units dev.unitWidth)
  sealed_eq : b.sealed = (handovers (stepsOf log)).map Handover.sealed
  conserved : b.Conserved

theorem Ledger.exists_whole {dev : Device} {settings : Settings} {d d' : Decoder dev}
    {calls : List Call} {x x' : Exchange} {log : List Occurrence}
    {results : List (Except DecodeError Unit)} (hstart : Decoder.start dev settings = .ok d)
    (h : Execution (session Decoder.call calls d) x log (d', results) x')
    (hok : ∀ r ∈ results, r.isOk) (hsteady : Steady (stepsOf log)) :
    ∃ b moves, Execution (session Ledger.call calls { decoder := d }) x log (b, results) x' ∧
      b.decoder = d' ∧ Whole d calls log b moves := by
  obtain ⟨b, moves, hb, hd, hflawless⟩ := exists_flawless hstart h hok
  exact ⟨b, moves, hb, hd, hflawless.end_eq, hflawless.succeeds, hflawless.units_eq hsteady,
    hflawless.sealed_eq, hflawless.conserved⟩

/-! ## Counts -/

theorem CommitTotals.count_eq (t : CommitTotals) (hs : List Handover) :
    t.count hs = {
      published := t.published + hs.countP (·.accepted)
      dropped := t.dropped + hs.countP fun h => !h.accepted && !h.sealed.isReset
      resetsAbandoned := t.resetsAbandoned + hs.countP fun h =>
        !h.accepted && h.sealed.isReset } := by
  induction hs generalizing t with
  | nil => rfl
  | cons h hs ih =>
    change (t.record h.outcome).count hs = _
    rw [ih]
    obtain ⟨sealed, accepted⟩ := h
    cases accepted <;> cases sealed <;>
      simp [Handover.outcome, CommitTotals.record, Sealed.isReset, Nat.add_assoc, Nat.add_comm]

theorem length_pushed (log : List Occurrence) :
    (pushed log).length = (handovers (stepsOf log)).countP (·.accepted) := by
  rw [pushed, List.length_map, List.countP_eq_length_filter]

/-- The books of a session agree with what the exchange saw of it: no event is lost, every sealed
container was handed over once, and the counts say what became of the containers. -/
structure Ledger.Accounted {dev : Device} (b : Ledger dev) (x : Exchange) (log : List Occurrence)
    (x' : Exchange) : Prop extends b.Conserved where
  handedOver : b.sealed = (handovers (stepsOf log)).map Handover.sealed
  queued : x.queue.items ++ pushed log = takenFrom log ++ x'.queue.items
  published : b.decoder.collector.totals.published = (pushed log).length
  dropped : b.decoder.collector.totals.dropped =
    (handovers (stepsOf log)).countP fun h => !h.accepted && !h.sealed.isReset
  resetsAbandoned : b.decoder.collector.totals.resetsAbandoned =
    (handovers (stepsOf log)).countP fun h => !h.accepted && h.sealed.isReset

open Wire.Dvs128 in
def sampleCalls : List Call :=
  [.decode (encode (address 3 4 true) 100 0 ++ encodeWrap ++ encode (address 3 5 true) 7 0),
    .decode (encodeReset ++ encode (address 9 4 false) 20 0), .flush]

/-- Every session accounts for all of its events and containers, whatever its device, its calls and
its queue do, and whether calls fail or not. -/
theorem session_accounted {dev : Device} {settings : Settings} {d d' : Decoder dev}
    {calls : List Call} {x x' : Exchange} {log : List Occurrence}
    {results : List (Except DecodeError Unit)} (hstart : Decoder.start dev settings = .ok d)
    (h : Execution (session Decoder.call calls d) x log (d', results) x') :
    ∃ b : Ledger dev, Execution (session Ledger.call calls { decoder := d }) x log (b, results) x' ∧
      b.decoder = d' ∧ b.Accounted x log x' := by
  obtain ⟨b, hb, hd⟩ := Ledger.exists_execution { decoder := d } h
  refine ⟨b, hb, hd, ?_⟩
  obtain ⟨moves, hcourse, -⟩ := Ledger.trace_session hb.trace
  have hconserved : b.Conserved := by
    rw [hcourse.end_eq]
    exact ((Ledger.conserved_start hstart).run moves).count _
  have htotals : b.decoder.collector.totals = CommitTotals.count {} (handovers (stepsOf log)) := by
    rw [hcourse.end_eq, ← (Decoder.start_ok hstart).totals_eq]
    exact congrArg (CommitTotals.count · _) (Ledger.totals_run _ moves)
  simp only [CommitTotals.count_eq, Nat.zero_add] at htotals
  exact {
    toConserved := hconserved
    handedOver := hcourse.sealed_eq
    queued := hb.items_append_pushed
    published := by rw [htotals, length_pushed]
    dropped := by rw [htotals]
    resetsAbandoned := by rw [htotals] }

theorem session_accounted_dvs128 :
    ∃ (d d' : Decoder Wire.Dvs128.device) (log : List Occurrence)
      (results : List (Except DecodeError Unit)) (x' : Exchange),
      Decoder.start Wire.Dvs128.device {} = .ok d ∧
      Execution (session Decoder.call sampleCalls d) (.start 3) log (d', results) x' ∧
      ∃ b : Ledger Wire.Dvs128.device,
        Execution (session Ledger.call sampleCalls { decoder := d }) (.start 3) log (b, results) x' ∧
        b.decoder = d' ∧ b.Accounted (.start 3) log x' := by
  have hrun : undisturbed Wire.Dvs128.device {} sampleCalls (.start 3) := by decide +kernel
  obtain ⟨d, d', results, log, x', hd, h, -⟩ := exists_of_undisturbed hrun
  exact ⟨d, d', log, results, x', hd, h, session_accounted hd h⟩

end EventCamera
