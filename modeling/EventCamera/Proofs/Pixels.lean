import EventCamera.Proofs.ExactTime
import EventCamera.Proofs.Headroom
import EventCamera.Proofs.Inertial
import EventCamera.Proofs.Resets

/-! # Streams of pixels

A stream of ticks and pixels adds what its units show, one after the other, each at the tick before it.
Nothing else is added, and however the events are sealed meanwhile, they are found in this order. -/

namespace EventCamera

/-- A tick, or a code that adds pixels. -/
def Code.Visual : Code → Prop
  | .tick _ | .pixel .. | .group .. => True
  | .wrap _ | .reset | .special .. | .composite .. => False

/-- The pixels that a code adds at a time. -/
def Code.pixels (g : Geometry) (time : Int) : Code → List PolarityEvent
  | .pixel x y on => ([y].filter (g.contains x)).map (⟨x, ·, on, time⟩)
  | .group x base mask on =>
    ((Decoder.rowsOf base mask).filter (g.contains x)).map (⟨x, ·, on, time⟩)
  | .tick _ | .wrap _ | .reset | .special .. | .composite .. => []

namespace Camera

/-- A unit that only says ticks and pixels, whatever came before it. -/
def Visual (c : Camera) (unit : List UInt8) : Prop :=
  ∀ s, ∀ code ∈ (c.device.classify s unit).codes, code.Visual

/-- What units show, read from a state of the device at a time. -/
def view (c : Camera) : c.device.State → Elapsed → List (List UInt8) → List PolarityEvent
  | _, _, [] => []
  | s, e, unit :: rest =>
    let seen := c.device.classify s unit
    let now := e.after (c.mark unit)
    seen.codes.flatMap (Code.pixels c.device.geometry now.ticks) ++ c.view seen.state now rest

theorem view_cons {c : Camera} {s s' : c.device.State} {unit : List UInt8} {codes : List Code}
    {m : Mark} (hcodes : (c.device.classify s unit).codes = codes)
    (hstate : (c.device.classify s unit).state = s') (hmark : c.mark unit = m) (e : Elapsed)
    (rest : List (List UInt8)) :
    c.view s e (unit :: rest) =
      codes.flatMap (Code.pixels c.device.geometry (e.after m).ticks) ++ c.view s' (e.after m) rest := by
  subst hcodes hstate hmark
  rfl

theorem mark_of_plain {c : Camera} {s : c.device.State} {unit : List UInt8}
    (h : ∀ code ∈ (c.device.classify s unit).codes, code.Plain) : c.mark unit = .silent := by
  obtain ⟨body, hleads⟩ := c.leads s unit
  rw [hleads.codes_eq] at h
  cases hm : c.mark unit with
  | silent => rfl
  | tick | turns | reset => simp [hm, Mark.codes, Code.Plain] at h

theorem mark_of_tick {c : Camera} {s : c.device.State} {unit : List UInt8} {ticks : Nat}
    {rest : List Code} (hcodes : (c.device.classify s unit).codes = .tick (.ofNat ticks) :: rest)
    (hlt : ticks < 2 ^ 15) : c.mark unit = .tick ticks := by
  obtain ⟨body, hleads⟩ := c.leads s unit
  have hboth := hcodes.symm.trans hleads.codes_eq
  cases hm : c.mark unit with
  | silent =>
    have hplain := hleads.plain (.tick (.ofNat ticks))
    simp only [hm, Mark.codes, List.nil_append] at hboth
    exact (hplain (by simp [← hboth])).elim
  | tick said =>
    have hsaid : said < 2 ^ 15 := by
      have := ticks_lt hm
      have := c.wrapUnit_spec.2.1
      omega
    simp only [hm, Mark.codes, List.singleton_append, List.cons.injEq, Code.tick.injEq] at hboth
    have hsame := congrArg UInt32.toNat hboth.1
    simp only [UInt32.toNat_ofNat'] at hsame
    rw [show said = ticks by omega]
  | turns | reset => simp [hm, Mark.codes] at hboth

theorem Visual.fillsUnit_eq {c : Camera} {unit : List UInt8} (h : c.Visual unit) :
    (c.mark unit).fillsUnit = false := by
  rw [Bool.eq_false_iff]
  intro hfills
  have hcodes := h c.device.initial
  rw [codes_of_fillsUnit rfl hfills] at hcodes
  cases hm : c.mark unit with
  | silent | tick => simp [hm, Mark.fillsUnit] at hfills
  | turns | reset => simp [hm, Mark.codes, Code.Visual] at hcodes

end Camera

theorem Elapsed.turns_after {m : Mark} (h : m.fillsUnit = false) (e : Elapsed) :
    (e.after m).turns = e.turns := by
  cases m with
  | silent | tick => rfl
  | turns | reset => cases h

/-- Before the first turn of the tick counter the clock shows the ticks, in epoch zero. -/
theorem Clock.Tells.of_turns_eq_zero {c : Clock} {e : Elapsed} (h : c.Tells e)
    (hturns : e.turns = 0) : c.epoch = 0 ∧ c.current = e.ticks := by
  have hepochs : e.epochs c.wrapUnit = 0 := by
    simp [Elapsed.epochs, hturns]
  have hbase := h.turns_eq
  have hcurrent := h.current_eq
  rw [hepochs, hturns] at hbase
  refine ⟨?_, by omega⟩
  rw [h.epoch_eq, Elapsed.epoch, hepochs]
  rfl

namespace Decoder

variable {dev : Device}

theorem asked_visual {code : Code} (h : code.Visual) (d : Decoder dev) :
    d.asked code = only .polarity (code.pixels dev.geometry d.clock.current) := by
  cases code with
  | tick => exact (only_nil _).symm
  | pixel | group => rfl
  | wrap | reset | special | composite => exact h.elim

theorem additions_visual {past : List (List UInt8)} {body : List Code}
    (hvisual : ∀ code ∈ body, code.Visual) (hplain : ∀ code ∈ body, code.Plain) {d : Decoder dev}
    (hok : (forEach apply body d).result.isOk) (k : EventKind) :
    (additions past body d k).map Added.stamped =
      (only .polarity (body.flatMap (Code.pixels dev.geometry d.clock.current)) k).map
        (·, (d.buffer k).epoch) := by
  induction body generalizing d with
  | nil =>
    rw [List.flatMap_nil, only_nil]
    rfl
  | cons code body ih =>
    obtain ⟨hcode, hbody⟩ := List.forall_mem_cons.1 hvisual
    obtain ⟨hleaves, hplain⟩ := List.forall_mem_cons.1 hplain
    have hclock := (apply_leavesClockAlone hleaves d).clock_eq
    have hepoch := (apply_adds code d).epoch_eq k
    cases hr : (apply code d).result with
    | error e =>
      simp only [forEach, Applied.andThen, hr] at hok
      cases hok
    | ok forced =>
      obtain rfl := (apply_leavesClockAlone hleaves d).forced_eq forced hr
      have hrest : (forEach apply body (apply code d).decoder).result.isOk := by
        rw [← (andThen_of_none hr (forEach apply body)).2]
        exact hok
      have hlater := ih hbody hplain hrest
      rw [hclock, hepoch] at hlater
      rw [List.flatMap_cons, congrFun (only_append ..) k, List.map_append, ← hlater,
        ← asked_visual hcode]
      simp only [additions, hr, List.map_append, List.map_map]
      rfl

/-- The codes of a unit that do not fail add all their pixels, at the time that its mark leaves. -/
theorem additions_leads_visual {m : Mark} {codes body : List Code} (h : m.Leads codes body)
    (hfills : m.fillsUnit = false) (hvisual : ∀ code ∈ codes, code.Visual)
    {past : List (List UInt8)} {d : Decoder dev} (hok : (forEach apply codes d).result.isOk)
    (k : EventKind) :
    (additions past codes d k).map Added.stamped =
      (only .polarity (codes.flatMap (Code.pixels dev.geometry
        (m.move d.collector.interval d.clock).current)) k).map (·, (d.buffer k).epoch) := by
  obtain ⟨rfl, hplain, -⟩ := h
  have hbody : ∀ code ∈ body, code.Visual :=
    fun code hcode => hvisual code (List.mem_append_right _ hcode)
  cases m with
  | silent => exact additions_visual hbody hplain hok k
  | tick ticks =>
    have hrest := (andThen_of_none (a := apply (.tick (.ofNat ticks)) d) rfl
      (forEach apply body)).2
    have hok' : (forEach apply body (apply (.tick (.ofNat ticks)) d).decoder).result.isOk :=
      hrest ▸ hok
    exact additions_visual hbody hplain hok' k
  | turns | reset => cases hfills

end Decoder

namespace Ledger

variable {c : Camera} {b : Ledger c.device} {unit : List UInt8}

theorem device_advance_visual (hvisual : c.Visual unit) :
    (b.advance (.unit unit)).decoder.device =
      (c.device.classify b.decoder.device unit).state := by
  obtain ⟨body, hleads⟩ := c.leads b.decoder.device unit
  have hforced (forced) (hr : (b.decoder.applyUnit unit).result = .ok forced) : forced = none :=
    (Decoder.forced_forEach_leads hleads hr).trans
      (Mark.forces_of_not_fillsUnit hvisual.fillsUnit_eq _)
  rw [decoder_advance, Decoder.device_make_of_none hforced]
  refine Decoder.device_forEach fun code hcode kind step => ?_
  rintro rfl
  exact hvisual _ _ hcode

/-- A unit that does not fail adds the pixels that it shows, at the tick that it leaves. -/
theorem addedBy_visual (h : b.EventsTimed) (hvisual : c.Visual unit)
    (hturns : (c.elapsed b.units).turns = 0) (hok : (b.decoder.make (.unit unit)).result.isOk)
    (k : EventKind) :
    (b.addedBy unit k).map Added.stamped =
      (only .polarity ((c.device.classify b.decoder.device unit).codes.flatMap
        (Code.pixels c.device.geometry (c.elapsed (b.units ++ [unit])).ticks)) k).map (·, 0) := by
  obtain ⟨body, hleads⟩ := c.leads b.decoder.device unit
  obtain ⟨forced, hforced⟩ := (b.decoder.make_made (.unit unit)).exists_forced hok
  have happlied : (b.decoder.applyUnit unit).result.isOk := by
    change (b.decoder.applyUnit unit).result = _ at hforced
    rw [hforced]
    rfl
  have hlater : (c.elapsed (b.units ++ [unit])).turns = 0 := by
    rw [c.elapsed_append_singleton, Elapsed.turns_after hvisual.fillsUnit_eq, hturns]
  have hcurrent := ((h.clockShowsTime.tells_unit unit).of_turns_eq_zero hlater).2
  have hepoch : (b.decoder.buffer k).epoch = 0 :=
    (h.epoch_eq k).trans (h.tells.of_turns_eq_zero hturns).1
  rw [← hcurrent, ← hepoch]
  exact Decoder.additions_leads_visual hleads hvisual.fillsUnit_eq (hvisual _) happlied k

/-- A run over visual units adds the pixels that these show, and nothing else. -/
theorem Succeeds.added_visual {moves : List Move} (hsucceeds : b.Succeeds moves) (h : b.EventsTimed)
    (hturns : (c.elapsed b.units).turns = 0)
    (hvisual : ∀ unit ∈ moves.filterMap Move.unit?, c.Visual unit) (k : EventKind) :
    ((b.run moves).added k).map Added.stamped = (b.added k).map Added.stamped ++
      (only .polarity (c.view b.decoder.device (c.elapsed b.units)
        (moves.filterMap Move.unit?)) k).map (·, 0) := by
  induction moves generalizing b with
  | nil => simp [run, Camera.view, congrFun (only_nil _) k]
  | cons m moves ih =>
    obtain ⟨hok, hrest⟩ := hsucceeds
    cases m with
    | rest =>
      have hdevice : (b.advance .rest).decoder.device = b.decoder.device :=
        b.decoder.device_make_rest
      have hlater := ih hrest (h.advance hok) hturns hvisual
      rw [hdevice] at hlater
      exact hlater
    | unit unit =>
      obtain ⟨hunit, hunits⟩ := List.forall_mem_cons.1 hvisual
      have helapsed : c.elapsed (b.advance (.unit unit)).units =
          (c.elapsed b.units).after (c.mark unit) := c.elapsed_append_singleton ..
      have hstill : (c.elapsed (b.advance (.unit unit)).units).turns = 0 := by
        rw [helapsed, Elapsed.turns_after hunit.fillsUnit_eq, hturns]
      have hlater := ih hrest (h.advance hok) hstill hunits
      have hnow := addedBy_visual h hunit hturns hok k
      rw [helapsed, device_advance_visual hunit] at hlater
      rw [c.elapsed_append_singleton] at hnow
      calc ((b.run (.unit unit :: moves)).added k).map Added.stamped
          = ((b.advance (.unit unit)).added k).map Added.stamped ++ _ := hlater
        _ = ((b.added k).map Added.stamped ++ (b.addedBy unit k).map Added.stamped) ++ _ := by
          rw [← List.map_append]
          rfl
        _ = _ := by
          rw [hnow, List.append_assoc, ← List.map_append, ← congrFun (only_append ..) k]
          rfl

end Ledger

/-! ## Sessions -/

/-- The events of a kind, with the epoch of their buffer: first those in the containers that were handed
over, then those that wait. -/
def Decoder.found {dev : Device} (d : Decoder dev) (hs : List Handover) (k : EventKind) :
    List (k.Record × Int) :=
  hs.flatMap (·.sealed.container.stamped k) ++ (d.buffer k).stamped

theorem not_isReset_of_resetCount {containers : List Sealed} (h : resetCount containers = 0) :
    ∀ s ∈ containers, s.isReset = false := by
  intro s hs
  simpa using List.countP_eq_zero.1 h s hs

/-- Where no reset was handed over, all that is found comes from containers of events. -/
theorem found_eq_sealedEvents {dev : Device} (d : Decoder dev) {hs : List Handover}
    (h : ∀ s ∈ hs.map Handover.sealed, s.isReset = false) (k : EventKind) :
    d.found hs k = sealedEvents (hs.map Handover.sealed) k ++ (d.buffer k).stamped := by
  have hsame (s : Sealed) (hs : s.isReset = false) : s.container.stamped k = s.stamped k := by
    cases s with
    | data => rfl
    | reset => cases hs
  have hmap : hs.map (·.sealed.container.stamped k) = hs.map (·.sealed.stamped k) :=
    List.map_congr_left fun handover hmem => hsame _ (h _ (List.mem_map_of_mem hmem))
  rw [Decoder.found, sealedEvents, List.flatMap_map, List.flatMap_def, hmap, List.flatMap_def]

/-- A session over visual units in which no call fails leaves the pixels that the units show, in
their order, each once, and nothing else, whatever was sealed and flushed meanwhile. -/
theorem found_eq_view {c : Camera} {settings : Settings} {d d' : Decoder c.device}
    {calls : List Call} {x x' : Exchange} {log : List Occurrence}
    {results : List (Except DecodeError Unit)}
    (hvisual : ∀ unit ∈ calls.flatMap (Call.units c.device.unitWidth), c.Visual unit)
    (hstart : Decoder.start c.device settings = .ok d)
    (h : Execution (session Decoder.call calls d) x log (d', results) x')
    (hok : ∀ r ∈ results, r.isOk) (hsteady : Steady (stepsOf log)) (k : EventKind) :
    d'.found (handovers (stepsOf log)) k =
      (only .polarity (c.view c.device.initial {}
        (calls.flatMap (Call.units c.device.unitWidth))) k).map (·, 0) := by
  obtain ⟨b, moves, -, rfl, hwhole⟩ := Ledger.exists_whole hstart h hok hsteady
  have hunits : moves.filterMap Move.unit? = calls.flatMap (Call.units c.device.unitWidth) := by
    have hrun := hwhole.units_eq
    rw [hwhole.end_eq] at hrun
    exact (Ledger.units_run { decoder := d } moves).symm.trans hrun
  have hbyResets := hwhole.succeeds.splitByResets hstart hwhole.end_eq
  have hnone : c.resets b.units = 0 := by
    rw [hwhole.units_eq]
    refine List.countP_eq_zero.2 fun unit hunit hreset => ?_
    have hfills := (hvisual unit hunit).fillsUnit_eq
    rw [of_decide_eq_true hreset] at hfills
    cases hfills
  have hdata := not_isReset_of_resetCount (hbyResets.resetCount_eq.trans hnone)
  rw [hwhole.sealed_eq] at hdata
  have hadded := hwhole.succeeds.added_visual (Ledger.eventsTimed_start hstart) rfl
    (hunits ▸ hvisual) k
  rw [found_eq_sealedEvents _ hdata, ← hwhole.sealed_eq, hwhole.conserved.events k, hwhole.end_eq]
  rw [hunits] at hadded
  refine hadded.trans ?_
  rw [(Decoder.start_ok hstart).device_eq]
  rfl

/-- A session over visual units finds the pixels that these show if no call fails, and no call fails
under settings that leave room. -/
theorem session_shows {c : Camera} {settings : Settings} {d d' : Decoder c.device}
    {calls : List Call} {units : List (List UInt8)} {pixels : List PolarityEvent} {x x' : Exchange}
    {log : List Occurrence} {results : List (Except DecodeError Unit)}
    (hcalls : calls.flatMap (Call.units c.device.unitWidth) = units)
    (hvisual : ∀ unit ∈ units, c.Visual unit) (hview : c.view c.device.initial {} units = pixels)
    (hstart : Decoder.start c.device settings = .ok d)
    (h : Execution (session Decoder.call calls d) x log (d', results) x')
    (hsteady : Steady (stepsOf log)) :
    ((∀ r ∈ results, r.isOk) → ∀ k, d'.found (handovers (stepsOf log)) k =
      (only .polarity pixels k).map (·, 0)) ∧
    (settings.Spacious → ∀ r ∈ results, r.isOk) := by
  subst hcalls hview
  constructor
  · intro hok k
    exact found_eq_view hvisual hstart h hok hsteady k
  · intro hs
    exact isOk_of_spacious hs hstart h

end EventCamera
