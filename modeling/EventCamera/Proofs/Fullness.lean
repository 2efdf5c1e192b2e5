import EventCamera.Proofs.ResetMarker
import EventCamera.Proofs.Triggers
import EventCamera.Proofs.Usability
import EventCamera.Wire.Table

/-! # How full buffers get

The buffers are looked at after every unit, and a unit that fails adds nothing. So each buffer is below
the size limit when the next unit comes, and a container holds no more than the limit and what the unit
that reached it added beyond. -/

namespace EventCamera

theorem Collector.size_lt_of_not_isFull {c : Collector} (h : c.isFull = false)
    (hpos : 0 < c.sizeLimit) (k : EventKind) : (c.batch.get k).size < c.sizeLimit := by
  simp only [isFull, hpos, decide_true, Bool.true_and, List.any_eq_false, decide_eq_true_eq,
    Nat.not_le] at h
  exact h _ (List.mem_map.2 ⟨k, by cases k <;> decide, rfl⟩)

theorem Collector.isFull_congr {c c' : Collector} (hlimit : c'.sizeLimit = c.sizeLimit)
    (hsize : ∀ k, (c'.batch.get k).size = (c.batch.get k).size) : c'.isFull = c.isFull := by
  simp only [isFull, hlimit, PerKind.collect, hsize]

namespace Decoder

variable {dev : Device} {d : Decoder dev} {s : Settings}

theorem keptBySteps_sizeLimit (limit : Nat) :
    KeptBySteps fun d : Decoder dev => d.collector.sizeLimit = limit where
  withClock _ _ h := h
  withDevice _ _ h := h
  append _ _ _ _ _ h := h
  withRoom _ _ _ _ _ h := h
  takeOut d forced sealing collector htaken h := by
    unfold Collector.takeOut at htaken
    obtain ⟨packed, -, htaken⟩ := exists_of_bind_eq_ok htaken
    cases htaken
    exact h

/-- Between two steps: the buffers are provided, and none is full. -/
structure Unfilled (s : Settings) (d : Decoder dev) : Prop where
  supplied : d.Supplied s.capacityLimit
  memory_eq : d.collector.memory = s.memory.later
  sizeLimit_eq : d.collector.sizeLimit = s.maxEvents
  not_isFull : d.collector.isFull = false

theorem unfilled_start (h : Decoder.start dev s = .ok d) : d.Unfilled s :=
  ⟨supplied_start h, (start_ok h).memory_eq, (start_ok h).sizeLimit_eq,
    Collector.not_isFull_of_isEmpty (start_ok h).isEmpty⟩

theorem Unfilled.count (h : d.Unfilled s) (hs : List Handover) : (d.count hs).Unfilled s :=
  ⟨h.supplied, h.memory_eq, h.sizeLimit_eq, h.not_isFull⟩

theorem Unfilled.replaceable (h : d.Unfilled s) (hmemory : s.Spares) : d.collector.Replaceable := by
  refine h.supplied.replaceable ?_
  rw [h.memory_eq]
  exact hmemory

theorem Unfilled.size_lt (h : d.Unfilled s) (hpos : 0 < s.maxEvents) (k : EventKind) :
    (d.buffer k).size < s.maxEvents := by
  rw [← h.sizeLimit_eq] at hpos ⊢
  exact Collector.size_lt_of_not_isFull h.not_isFull hpos k

/-! ## What a unit adds -/

theorem size_of_events {k : EventKind} {b : Buffer k} {records : List k.Record}
    (h : b.events.toList = records) : b.size = records.length := by
  rw [← h, Array.length_toList]
  rfl

/-- A code asks for a single event, unless it is a pixel group. -/
theorem length_asked_le_demand (code : Code) (d : Decoder dev) (k : EventKind) :
    (d.asked code k).length ≤ if code.isGroup ∧ k = .polarity then 8 else 1 := by
  have hpixels (x : UInt16) (rows : List UInt16) (on : Bool) :
      (d.pixelsAt x rows on).length ≤ rows.length := by
    rw [pixelsAt, List.length_map]
    exact List.length_filter_le _ _
  have hone {l : EventKind} {records : List l.Record} (h : records.length ≤ 1) :
      (only l records k).length ≤ 1 := Nat.le_trans (length_only_le ..) h
  cases code with
  | tick | reset => exact Nat.zero_le _
  | wrap multiplier =>
    simp only [asked]
    split
    · exact hone (Nat.le_refl 1)
    · exact Nat.zero_le _
  | pixel x y on => exact hone (hpixels x [y] on)
  | group x base mask on =>
    by_cases hk : k = .polarity
    · rw [if_pos ⟨rfl, hk⟩]
      exact Nat.le_trans (length_only_le ..)
        (Nat.le_trans (hpixels ..) (length_rowsOf_le base mask))
    · rw [asked, only_of_ne _ (Ne.symm hk)]
      exact Nat.zero_le _
  | special kind data => exact hone (Nat.le_refl 1)
  | composite kind step =>
    simp only [asked]
    cases (dev.compose d.device kind step d.clock.current).outcome with
    | complete event => exact hone (Nat.le_refl 1)
    | mismatch | pending | ignored => exact Nat.zero_le _

/-- Brief codes add what the last of them asks for. -/
theorem exists_adds_of_brief {codes : List Code} {grouped : Bool} (hbrief : Brief codes grouped)
    (d : Decoder dev) : ∃ records, d.Adds records (forEach apply codes d) ∧
      ∀ k, (records k).length ≤ if grouped ∧ k = .polarity then 8 else 1 := by
  obtain ⟨d', code?, hsame, -, rfl, hdecoder, hresult⟩ := exists_forEach_brief hbrief d
  cases code? with
  | none =>
    refine ⟨fun _ => [], .nothing ?_, fun _ => Nat.zero_le _⟩
    intro k
    rw [hdecoder]
    exact hsame k
  | some code =>
    refine ⟨d'.asked code, ?_, length_asked_le_demand code d'⟩
    have hadds := (apply_adds code d').of_buffers hsame
    refine ⟨?_, ?_, ?_⟩
    · rw [hdecoder]
      exact hadds.epoch_eq
    · rw [hdecoder, hresult]
      exact hadds.of_ok
    · rw [hdecoder, hresult]
      exact hadds.of_error

end Decoder

/-- How far a single unit brings a buffer beyond the size limit. -/
def Camera.excess : Camera → EventKind → Nat
  | .dvXplorer _, .polarity => 7
  | .dvXplorer _, .special | .dvXplorer _, .frame | .dvXplorer _, .imu6 | .dvs128, _ => 0

theorem Camera.exists_adds (c : Camera) (d : Decoder c.device) (unit : List UInt8) :
    ∃ records, d.Adds records (d.applyUnit unit) ∧ ∀ k, (records k).length ≤ 1 + c.excess k := by
  obtain ⟨grouped, hbrief, hdemand⟩ := c.exists_brief d.device unit
  obtain ⟨records, hadds, hlength⟩ := Decoder.exists_adds_of_brief hbrief
    { d with device := (c.device.classify d.device unit).state }
  refine ⟨records, hadds.of_buffers fun _ => rfl, ?_⟩
  intro k
  refine Nat.le_trans (hlength k) ?_
  cases c with
  | dvs128 =>
    have hplain : grouped = false := by
      by_contra hgrouped
      rw [if_pos (Bool.not_eq_false _ ▸ hgrouped)] at hdemand
      cases hdemand
    simp [hplain]
  | dvXplorer g => cases k <;> simp [excess]; split <;> decide

/-! ## What steps leave and seal -/

namespace Decoder

variable {c : Camera} {d : Decoder c.device} {s : Settings}

theorem size_of_failed {unit : List UInt8} (hfail : ¬ (d.applyUnit unit).result.isOk)
    (k : EventKind) : ((d.applyUnit unit).decoder.buffer k).size = (d.buffer k).size := by
  obtain ⟨records, hadds, -⟩ := c.exists_adds d unit
  exact size_of_events (hadds.of_error hfail k)

/-- Before anything is sealed, a step brings no buffer further beyond the limit than one unit can. -/
theorem Unfilled.size_moved_le (h : d.Unfilled s) (hpos : 0 < s.maxEvents) (m : Move)
    (k : EventKind) : ((d.moved m).decoder.buffer k).size ≤ s.maxEvents + c.excess k := by
  have hlt := h.size_lt hpos k
  cases m with
  | rest => exact Nat.le_trans (Nat.le_of_lt hlt) (Nat.le_add_right ..)
  | unit unit =>
    obtain ⟨records, hadds, hlength⟩ := c.exists_adds d unit
    by_cases hok : (d.applyUnit unit).result.isOk
    · have hmore := hlength k
      have hsize := size_of_events (hadds.of_ok hok k)
      rw [List.length_append] at hsize
      change ((d.applyUnit unit).decoder.buffer k).size ≤ _
      rw [hsize]
      have hsame : (d.buffer k).events.toList.length = (d.buffer k).size := rfl
      omega
    · have hsize := size_of_failed hok k
      change ((d.applyUnit unit).decoder.buffer k).size ≤ _
      omega

/-- After a step no buffer is full, whether it failed or not. -/
theorem Unfilled.make (h : d.Unfilled s) (hmemory : s.Spares) (m : Move) :
    (d.make m).decoder.Unfilled s where
  supplied := (keptBySteps_supplied _).make h.supplied m
  memory_eq := (memory_make d m).trans h.memory_eq
  sizeLimit_eq := (keptBySteps_sizeLimit _).make h.sizeLimit_eq m
  not_isFull := by
    cases m with
    | rest => exact Collector.not_isFull_of_isEmpty (idle_settleRest (h.replaceable hmemory))
    | unit unit =>
      by_cases hok : (d.applyUnit unit).result.isOk
      · have hmade := (h.replaceable hmemory).isOk_make_iff.2 hok
        exact (atRest_settled hmade).not_isFull
      · have hsize := (keptBySteps_sizeLimit _).applyUnit h.sizeLimit_eq unit
        obtain ⟨e, he⟩ : ∃ e, (d.applyUnit unit).result = .error e := by
          cases hr : (d.applyUnit unit).result with
          | error e => exact ⟨e, rfl⟩
          | ok forced => exact absurd (by rw [hr]; rfl) hok
        have hmade : d.make (.unit unit) = _ := settled_of_error he
        rw [hmade]
        exact (Collector.isFull_congr (hsize.trans h.sizeLimit_eq.symm) (size_of_failed hok)).trans
          h.not_isFull

end Decoder

/-- A container of events holds no more than the buffers that it was made of. -/
theorem Decoder.Made.sizeOf_le {dev : Device} {a : Applied dev} {s : Settled dev} (h : Made a s)
    {container : Container} (hc : .data container ∈ s.handedOn) (k : EventKind) :
    container.sizeOf k ≤ (a.decoder.buffer k).size := by
  have hsame := congrArg List.length (h.stamped_of_mem hc k)
  rw [Container.length_stamped, Buffer.stamped, List.length_map] at hsame
  exact Nat.le_of_eq hsame

namespace Ledger

variable {c : Camera} {s : Settings} {b : Ledger c.device}

theorem unfilled_run (h : b.decoder.Unfilled s) (hmemory : s.Spares) (moves : List Move) :
    (b.run moves).decoder.Unfilled s :=
  decoder_run (P := (·.Unfilled s)) (fun _ m hd => hd.make hmemory m) h moves

end Ledger

/-- Whatever calls came before, and whatever they came to: as long as there is memory for new buffers,
every buffer is below the size limit, and no container went further beyond it than one unit can. -/
theorem session_bounded {c : Camera} {settings : Settings} {d d' : Decoder c.device}
    {calls : List Call} {x x' : Exchange} {log : List Occurrence}
    {results : List (Except DecodeError Unit)} (hpos : 0 < settings.maxEvents)
    (hmemory : settings.Spares) (hstart : Decoder.start c.device settings = .ok d)
    (h : Execution (session Decoder.call calls d) x log (d', results) x') :
    (∀ k, (d'.buffer k).size < settings.maxEvents) ∧
      ∀ s ∈ (handovers (stepsOf log)).map Handover.sealed, ∀ k,
        s.container.sizeOf k ≤ settings.maxEvents + c.excess k := by
  obtain ⟨b, hb, rfl⟩ := Ledger.exists_execution { decoder := d } h
  obtain ⟨moves, hcourse, -⟩ := Ledger.trace_session hb.trace
  have hunfilled (past : List Move) :
      (Ledger.run { decoder := d } past).decoder.Unfilled settings :=
    Ledger.unfilled_run (Decoder.unfilled_start hstart) hmemory past
  refine ⟨?_, ?_⟩
  · rw [hcourse.end_eq]
    exact ((hunfilled moves).count _).size_lt hpos
  · intro s hs k
    rw [hcourse.map_sealed rfl] at hs
    rcases Ledger.exists_step_of_sealed hs with hnone | ⟨past, m, -, hs⟩
    · cases hnone
    · cases s with
      | data container =>
        have hmade := (Ledger.run { decoder := d } past).decoder.make_made m
        exact Nat.le_trans (hmade.sizeOf_le hs k) ((hunfilled past).size_moved_le hpos m k)
      | reset container =>
        obtain rfl := ((Ledger.clockShowsTime_start hstart).run past).eq_reset hs
        have hone : (Container.reset 0 0).sizeOf k ≤ 1 := by cases k <;> decide
        exact Nat.le_trans hone (Nat.le_trans hpos (Nat.le_add_right ..))

def tightSettings : Settings :=
  { maxEvents := 4, capacityLimit := 8 }

open Wire.DvXplorer.Encode in
/-- Three pixels, a group that finds no room behind them, and another one after they were sealed. -/
def crowdedCalls : List Call :=
  [.decode (column 5 true ++ groupRows 0 1 ++ group true 0x07 true), .decode (group true 0xff true),
    .flush, .decode (group true 0xff true)]

theorem session_bounded_crowded :
    ∃ (d d' : Decoder (Camera.dvXplorer Wire.DvXplorer.fullArray).device) (log : List Occurrence)
      (results : List (Except DecodeError Unit)) (x' : Exchange),
      Decoder.start (Camera.dvXplorer Wire.DvXplorer.fullArray).device tightSettings = .ok d ∧
      Execution (session Decoder.call crowdedCalls d) (.start 5) log (d', results) x' ∧
      results.map Except.isOk = [true, false, true, true] ∧
      ((handovers (stepsOf log)).map fun h => h.sealed.container.sizeOf .polarity) = [3, 8] ∧
      (∀ k, (d'.buffer k).size < 4) ∧
      ∀ s ∈ (handovers (stepsOf log)).map Handover.sealed, ∀ k, s.container.sizeOf k ≤
        4 + (Camera.dvXplorer Wire.DvXplorer.fullArray).excess k := by
  have hrun : comesTo (Camera.dvXplorer Wire.DvXplorer.fullArray).device tightSettings crowdedCalls
      (.start 5) fun steps results =>
        decide (results.map Except.isOk = [true, false, true, true] ∧
          ((handovers steps).map fun h => h.sealed.container.sizeOf .polarity) = [3, 8]) := by
    decide +kernel
  obtain ⟨d, d', results, steps, x', hd, h, htest⟩ := exists_of_comesTo hrun
  obtain ⟨hresults, hsizes⟩ := of_decide_eq_true htest
  have hbounded := session_bounded (show 0 < 4 by decide) (by decide) hd h
  refine ⟨d, d', steps.map .acted, results, x', hd, h, hresults, ?_, hbounded⟩
  rwa [stepsOf_acted]

/-- Some bytes leave a new decoder with a buffer that is not below the size limit. -/
def BreaksBound (dev : Device) (settings : Settings) (bytes : List UInt8) : Prop :=
  0 < settings.maxEvents ∧
  ∃ (d d' : Decoder dev) (result : Except DecodeError Unit) (log : List Occurrence)
    (x x' : Exchange) (k : EventKind), Decoder.start dev settings = .ok d ∧
    Execution (d.decode bytes) x log (d', result) x' ∧ settings.maxEvents ≤ (d'.buffer k).size

theorem breaksBound_of_leaves {dev : Device} {settings : Settings} {bytes : List UInt8}
    {x : Exchange} (hpos : 0 < settings.maxEvents)
    (h : leaves dev settings bytes x fun d' _ =>
      decide (∃ k ∈ EventKind.all, settings.maxEvents ≤ (d'.buffer k).size)) :
    BreaksBound dev settings bytes := by
  obtain ⟨d, d', result, log, x', hd, hx, htest⟩ := exists_of_leaves h
  obtain ⟨k, -, hsize⟩ := of_decide_eq_true htest
  exact ⟨hpos, d, d', result, log, x, x', k, hd, hx, hsize⟩

/-- A device with a unit of three pixels. -/
def pixelTriple : Device :=
  Wire.Table.scripted { table := #[[.code (.pixel 1 1 true), .code (.pixel 2 1 true),
    .code (.pixel 3 1 true)]] }

open Wire.Dvs128 in
/-- A buffer stays full if the last pixel of a unit fails behind others, and if there is no memory for a
new buffer. -/
theorem breaksBound_pixelTriple :
    BreaksBound pixelTriple { maxEvents := 2, capacityLimit := 2 } [0] ∧
      BreaksBound device { maxEvents := 2, memory := { later := 0 } }
        (encode (address 3 4 true) 1 0 ++ encode (address 5 4 true) 2 0) :=
  ⟨breaksBound_of_leaves (x := .start 3) (by decide) (by decide +kernel),
    breaksBound_of_leaves (x := .start 3) (by decide) (by decide +kernel)⟩

end EventCamera
