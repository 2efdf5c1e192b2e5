import EventCamera.Proofs.Capacity
import EventCamera.Proofs.Running

/-! # What settings are good for

A decoder can be started with any valid settings, and while no event waits it decodes any unit for
which the limit of the buffers leaves room. A pixel group of a DVXplorer asks for the room of eight events
whatever its mask is, so that a lower limit refuses it each time. -/

namespace EventCamera

/-! ## The room that units ask for -/

def Wire.DvXplorer.isGroup : List UInt8 → Bool
  | low :: high :: _ =>
    let unit := word low high
    2 * 2 ^ 12 ≤ unit && unit < 4 * 2 ^ 12
  | _ => false

/-- The number of events that a unit asks for room for. -/
def Camera.demand : Camera → List UInt8 → Nat
  | .dvs128, _ => 1
  | .dvXplorer _, unit => if Wire.DvXplorer.isGroup unit then 8 else 1

def Code.isGroup : Code → Bool
  | .group .. => true
  | .tick _ | .wrap _ | .reset | .pixel .. | .special .. | .composite .. => false

/-- Codes that are at most one code behind at most one tick. -/
structure Brief (codes : List Code) (grouped : Bool) : Prop where
  exists_codes : ∃ (ticks? : Option UInt32) (code? : Option Code),
    codes = ticks?.toList.map Code.tick ++ code?.toList ∧ code?.any Code.isGroup = grouped

theorem Brief.nil : Brief [] false :=
  ⟨none, none, rfl, rfl⟩

theorem Brief.single (code : Code) : Brief [code] code.isGroup :=
  ⟨none, some code, rfl, rfl⟩

theorem Brief.behind (ticks : UInt32) (code : Code) : Brief [.tick ticks, code] code.isGroup :=
  ⟨some ticks, some code, rfl, rfl⟩

namespace Wire

theorem Dvs128.brief (unit : List UInt8) : Brief (codes unit) false := by
  match unit with
  | addressLow :: addressHigh :: low :: high :: _ =>
    simp only [codes]
    split
    · exact .single _
    · split
      · exact .single _
      · split <;> exact .behind ..
  | [] | [_] | [_, _] | [_, _, _] => exact .nil

namespace DvXplorer

theorem special_brief (a : Address) (data : Nat) : Brief (a.special data).codes false := by
  unfold Address.special
  split
  case h_1 | h_10 => exact .nil
  all_goals exact .single _

theorem moveColumn_brief (g : Geometry) (a : Address) (data : Nat) :
    Brief (a.moveColumn g data).codes false := by
  unfold Address.moveColumn
  by_cases hstart : flag data 11
  all_goals
    simp only [hstart, if_true]
    split
  · exact .single _
  · exact .single _
  · exact .nil
  · exact .nil

theorem moveRows_brief (g : Geometry) (a : Address) (data : Nat) :
    Brief (a.moveRows g data).codes false := by
  unfold Address.moveRows
  simp only
  split
  · exact .nil
  · split <;> exact .nil

theorem misc_brief (a : Address) (data : Nat) : Brief (a.misc data).codes false := by
  unfold Address.misc
  split
  · exact .single _
  · exact .single _
  · exact .nil

theorem brief (g : Geometry) (s : State) (unit : List UInt8) :
    Brief (classify g s unit).codes (isGroup unit) := by
  match unit with
  | low :: high :: _ =>
    have hword := word_lt low high
    simp only [isGroup, classify, Address.read, flag_iff hword]
    have hcode : field (word low high) 12 3 = word low high / 2 ^ 12 % 2 ^ 3 := field_eq ..
    rw [hcode]
    generalize word low high = w at hword ⊢
    -- the second quarter holds exactly the words with the codes 2 and 3
    have hgroup : (decide (2 * 2 ^ 12 ≤ w) && decide (w < 4 * 2 ^ 12)) =
        decide (w / 2 ^ 12 = 2 ∨ w / 2 ^ 12 = 3) := by
      rw [← Bool.decide_and, decide_eq_decide]
      omega
    rw [hgroup]
    by_cases htick : 2 ^ 15 ≤ w
    · rw [if_pos htick, decide_eq_false (by omega)]
      exact .single _
    · rw [if_neg htick, Nat.mod_eq_of_lt (by omega)]
      generalize w / 2 ^ 12 = code
      split
      · exact special_brief ..
      · exact moveColumn_brief ..
      · exact .single _
      · exact .single _
      · exact moveRows_brief ..
      · exact misc_brief ..
      · exact .single _
      · rename_i _ _ hsecond hfirst _ _ _
        rw [decide_eq_false (not_or.2 ⟨hsecond, hfirst⟩)]
        exact .nil
  | [] | [_] => exact .nil

end DvXplorer

end Wire

theorem Camera.exists_brief (c : Camera) (s : c.device.State) (unit : List UInt8) :
    ∃ grouped, Brief (c.device.classify s unit).codes grouped ∧
      c.demand unit = if grouped then 8 else 1 := by
  cases c with
  | dvs128 => exact ⟨false, Wire.Dvs128.brief unit, rfl⟩
  | dvXplorer g => exact ⟨_, Wire.DvXplorer.brief g s unit, rfl⟩

/-! ## Units while no event waits -/

namespace Decoder

variable {dev : Device} {d : Decoder dev}

theorem isOk_push_of_room (h : ∀ k, (d.collector.capacityFor k 1).isOk) (k : EventKind)
    (event : k.Record) (notices : List Notice) (forced : Option Forced) :
    (d.push k event notices forced).result.isOk := by
  rw [isOk_push]
  exact h k

theorem isOk_apply (h : ∀ k, (d.collector.capacityFor k 1).isOk) {code : Code}
    (hcode : code.isGroup = false) : (apply code d).result.isOk := by
  cases code with
  | tick | reset => rfl
  | wrap multiplier =>
    simp only [apply]
    split
    · exact isOk_push_of_room (d := d.withClock (·.wrap multiplier)) h ..
    · rfl
  | pixel x y on =>
    simp only [apply, pushPixel]
    split
    · exact isOk_push_of_room h ..
    · rfl
  | group => cases hcode
  | special kind data => exact isOk_push_of_room h ..
  | composite kind step =>
    simp only [apply, applyComposite]
    cases (dev.compose d.device kind step d.clock.current).outcome with
    | complete event =>
      let d' : Decoder dev :=
        { d with device := (dev.compose d.device kind step d.clock.current).state }
      exact isOk_push_of_room (d := d') h ..
    | mismatch | pending | ignored => rfl

theorem Idle.isOk_apply (h : d.Idle) {code : Code} (hcode : code.isGroup = false) :
    (apply code d).result.isOk :=
  Decoder.isOk_apply (fun k => Buffer.isOk_capacityFor_of_isEmpty (h k) _) hcode

/-- A pixel group fails for want of room for eight events. -/
theorem pushGroup_of_error {e : GrowthError} (h : d.collector.capacityFor .polarity 8 = .error e)
    (x base : UInt16) (mask : UInt8) (on : Bool) :
    (d.pushGroup x base mask on).result = .error e := by
  unfold pushGroup
  rw [h]

theorem isOk_pushGroup {capacity : Nat} (h : d.collector.capacityFor .polarity 8 = .ok capacity)
    (x base : UInt16) (mask : UInt8) (on : Bool) : (d.pushGroup x base mask on).result.isOk := by
  have hroom : ((d.withCollector (·.withRoom .polarity capacity)).buffer .polarity).Fits
      (rowsOf base mask).length := by
    rw [buffer_withRoom_self]
    exact (Buffer.fits_of_capacityFor h).mono (length_rowsOf_le base mask)
  unfold pushGroup
  rw [h]
  exact (forEach_pushPixel_adds x on hroom).1

variable {limit : Nat}

/-- While no event waits, a code fails only if it adds a pixel group and the limit leaves no room for
one. -/
theorem Supplied.result_apply (h : d.Supplied limit) (hidle : d.Idle) (code : Code) :
    if code.isGroup ∧ limit < 8 then
      (apply code d).result = .error ⟨.polarity, limit, doubledTo 8 limit⟩
    else (apply code d).result.isOk := by
  obtain ⟨hprovided, hlimit⟩ := h .polarity
  have husual : 8 ≤ EventKind.polarity.defaultCapacity := by decide
  have hcapacity : d.collector.capacityFor .polarity 8 = _ :=
    hprovided.capacityFor_of_isEmpty (hidle .polarity) husual
  rw [hlimit] at hcapacity
  cases code with
  | group x base mask on =>
    by_cases hlt : limit < 8
    · rw [if_pos ⟨rfl, hlt⟩]
      rw [if_neg (Nat.not_le_of_lt hlt)] at hcapacity
      exact pushGroup_of_error hcapacity ..
    · rw [if_neg fun hboth => hlt hboth.2]
      rw [if_pos (Nat.le_of_not_lt hlt)] at hcapacity
      exact isOk_pushGroup hcapacity ..
  | tick | wrap | reset | pixel | special | composite =>
    rw [if_neg fun hboth => Bool.false_ne_true hboth.1]
    exact hidle.isOk_apply rfl

/-- Brief codes come to what the last of them comes to. -/
theorem exists_forEach_brief {codes : List Code} {grouped : Bool} (hbrief : Brief codes grouped)
    (d : Decoder dev) : ∃ (d' : Decoder dev) (code? : Option Code),
      (∀ k, d'.buffer k = d.buffer k) ∧ d'.collector.memory = d.collector.memory ∧
      code?.any Code.isGroup = grouped ∧
      (forEach apply codes d).decoder = code?.elim d' (fun code => (apply code d').decoder) ∧
      (forEach apply codes d).result =
        code?.elim (.ok none) fun code => (apply code d').result := by
  obtain ⟨ticks?, code?, rfl, hgrouped⟩ := hbrief
  have hlast (d : Decoder dev) :
      (forEach apply code?.toList d).decoder =
          code?.elim d (fun code => (apply code d).decoder) ∧
        (forEach apply code?.toList d).result =
          code?.elim (.ok none) fun code => (apply code d).result := by
    cases code? with
    | none => exact ⟨rfl, rfl⟩
    | some code => exact forEach_singleton apply code d
  cases ticks? with
  | none => exact ⟨d, code?, fun _ => rfl, rfl, hgrouped, hlast d⟩
  | some ticks =>
    obtain ⟨hdecoder, hresult⟩ := andThen_of_none (a := apply (.tick ticks) d) rfl
      (forEach apply code?.toList)
    obtain ⟨hlast_decoder, hlast_result⟩ := hlast (apply (.tick ticks) d).decoder
    exact ⟨(d.withClock (·.tick ticks)).arm, code?, fun _ => rfl, rfl, hgrouped,
      hdecoder.trans hlast_decoder, hresult.trans hlast_result⟩

end Decoder

/-- What comes of a unit while no event waits and the buffers are limited to a number of events. -/
def Camera.verdict (c : Camera) (limit : Nat) (unit : List UInt8) : Except GrowthError Unit :=
  if c.demand unit ≤ limit then .ok ()
  else .error ⟨.polarity, limit, doubledTo (c.demand unit) limit⟩

namespace Decoder.Supplied

variable {c : Camera} {d : Decoder c.device} {limit : Nat}

/-- While no event waits, the codes of a unit fail if it asks for more room than the limit leaves. -/
theorem result_applyUnit (h : d.Supplied limit) (hidle : d.Idle) (unit : List UInt8) :
    if c.demand unit ≤ limit then (d.applyUnit unit).result.isOk
    else (d.applyUnit unit).result =
      .error ⟨.polarity, limit, doubledTo (c.demand unit) limit⟩ := by
  have hpos : 1 ≤ limit := h.limit_pos
  obtain ⟨grouped, hbrief, hdemand⟩ := c.exists_brief d.device unit
  obtain ⟨d', code?, hbuffers, -, rfl, -, hresult⟩ := exists_forEach_brief hbrief
    { d with device := (c.device.classify d.device unit).state }
  have hsupplied : d'.Supplied limit := fun k => (hbuffers k).symm ▸ h k
  have hidle' : d'.Idle := fun k => (hbuffers k).symm ▸ hidle k
  change (d.applyUnit unit).result = _ at hresult
  rw [hresult, hdemand]
  cases code? with
  | none =>
    rw [Option.any_none, if_neg Bool.false_ne_true, if_pos hpos]
    rfl
  | some code =>
    have happly := hsupplied.result_apply hidle' code
    rw [Option.any_some]
    by_cases hcode : code.isGroup
    · rw [if_pos hcode]
      by_cases hlt : limit < 8
      · rw [if_neg (Nat.not_le_of_lt hlt)]
        rwa [if_pos ⟨hcode, hlt⟩] at happly
      · rw [if_pos (Nat.le_of_not_lt hlt)]
        rwa [if_neg fun hboth => hlt hboth.2] at happly
    · rw [if_neg hcode, if_pos hpos]
      rwa [if_neg fun hboth => hcode hboth.1] at happly

/-- While no event waits, a unit comes to its verdict. -/
theorem result_make (h : d.Supplied limit) (hmemory : SparesNew d.collector.memory limit)
    (hidle : d.Idle) (unit : List UInt8) :
    ((d.make (.unit unit)).result.map fun _ => ()) = c.verdict limit unit := by
  have happlied := h.result_applyUnit hidle unit
  unfold Camera.verdict
  by_cases hroom : c.demand unit ≤ limit
  · rw [if_pos hroom] at happlied ⊢
    have hmade := (h.replaceable hmemory).isOk_make_iff.2 happlied
    cases hr : (d.make (.unit unit)).result with
    | error e =>
      rw [hr] at hmade
      cases hmade
    | ok => rfl
  · rw [if_neg hroom] at happlied ⊢
    change ((settled (d.applyUnit unit)).result.map fun _ => ()) = _
    rw [settled_of_error happlied]
    rfl

end Decoder.Supplied

/-! ## Sessions -/

/-- A decoder can be started with any limit that is not zero, if there is memory for its buffers. -/
theorem Decoder.exists_start (dev : Device) {settings : Settings}
    (h : 0 < settings.capacityLimit)
    (hmemory : SparesNew settings.memory.atStart settings.capacityLimit) :
    ∃ d, Decoder.start dev settings = .ok d := by
  have hbuffer (k : EventKind) : ∃ b,
      Buffer.ofKind k settings.capacityLimit 0 settings.memory.atStart = .ok b := by
    have hok := Buffer.isOk_ofKind (k := k) h hmemory 0
    cases hb : Buffer.ofKind k settings.capacityLimit 0 settings.memory.atStart with
    | error e =>
      rw [hb] at hok
      cases hok
    | ok b => exact ⟨b, rfl⟩
  obtain ⟨special, hspecial⟩ := hbuffer .special
  obtain ⟨polarity, hpolarity⟩ := hbuffer .polarity
  obtain ⟨frame, hframe⟩ := hbuffer .frame
  obtain ⟨imu6, himu6⟩ := hbuffer .imu6
  unfold Decoder.start Collector.start Batch.start
  rw [hspecial, hpolarity, hframe, himu6]
  exact ⟨_, rfl⟩

theorem Settings.capacityLimit_pos {settings : Settings} (h : settings.validate = .ok ()) :
    0 < settings.capacityLimit := by
  refine Nat.pos_of_ne_zero fun hzero => ?_
  unfold validate at h
  rw [if_pos hzero] at h
  split at h
  · cases h
  · split at h
    · cases h
    · split at h <;> cases h

/-- Decoding a unit comes to an end, and to a given result as long as the acquisition is wanted. -/
structure Decoder.Decodes {dev : Device} (d : Decoder dev) (unit : List UInt8)
    (verdict : Except DecodeError Unit) : Prop where
  ends : ∀ x : Exchange, x.Bounded → ∃ log d' x',
    Execution (d.decode unit) x log (d', verdict) x' ∧ Steady (stepsOf log)
  result_eq : ∀ {x x' : Exchange} {log : List Occurrence} {d' : Decoder dev}
    {result : Except DecodeError Unit}, Execution (d.decode unit) x log (d', result) x' →
      ⟨.isRunning, true⟩ ∈ stepsOf log → result = verdict
  unwanted : ∀ {x x' : Exchange} {log : List Occurrence} {d' : Decoder dev}
    {result : Except DecodeError Unit}, Execution (d.decode unit) x log (d', result) x' →
      ⟨.isRunning, true⟩ ∉ stepsOf log → d' = d ∧ result = .ok ()

/-- A unit is decoded by what its step comes to. -/
theorem Decoder.decodes {dev : Device} (d : Decoder dev) {unit : List UInt8}
    (hunit : unit.length = max dev.unitWidth 1) :
    d.Decodes unit (((d.make (.unit unit)).result.map fun _ => ()).mapError .allocation) := by
  have hread {x x' : Exchange} {log : List Occurrence} {d' : Decoder dev}
      {result : Except DecodeError Unit} (h : Execution (d.decode unit) x log (d', result) x') :
      (stepsOf log = [⟨.isRunning, false⟩] ∧ d' = d ∧ result = .ok ()) ∨
        ⟨.isRunning, true⟩ ∈ stepsOf log ∧
        result = ((d.make (.unit unit)).result.map fun _ => ()).mapError .allocation := by
    obtain ⟨b', hb, rfl⟩ := Ledger.exists_trace { decoder := d } (c := .decode unit) h.trace
    rcases Ledger.trace_decode_unit hunit hb with ⟨hsteps, rfl, hresult⟩ | ⟨hwanted, -, hresult⟩
    · exact .inl ⟨hsteps, rfl, hresult⟩
    · exact .inr ⟨hwanted, hresult⟩
  refine ⟨fun x hx => ?_, fun h hwanted => ?_, fun h hunwanted => ?_⟩
  · obtain ⟨log, ⟨d', result⟩, x', h, hsteady⟩ := Producer.exists_steady (d.decode unit) hx
    rcases hread h with ⟨hsteps, -⟩ | ⟨-, rfl⟩
    · rw [hsteps] at hsteady
      cases hsteady _ List.mem_cons_self
    · exact ⟨log, d', x', h, hsteady⟩
  · rcases hread h with ⟨hsteps, -⟩ | ⟨-, hresult⟩
    · rw [hsteps] at hwanted
      cases List.mem_singleton.1 hwanted
    · exact hresult
  · rcases hread h with ⟨-, hsame⟩ | ⟨hwanted, -⟩
    · exact hsame
    · exact absurd hwanted hunwanted

/-- What settings do for a camera: a decoder can be started, and wherever calls leave it without an event
that waits, any unit comes to its verdict. -/
structure Camera.Serves (c : Camera) (settings : Settings) : Prop where
  starts : ∃ d, Decoder.start c.device settings = .ok d
  decodes : ∀ {d d₁ : Decoder c.device} {calls : List Call} {x x' : Exchange}
    {log : List Occurrence} {results : List (Except DecodeError Unit)},
    Decoder.start c.device settings = .ok d →
    Execution (session Decoder.call calls d) x log (d₁, results) x' → d₁.pending = 0 →
    ∀ unit : List UInt8, unit.length = c.device.unitWidth →
      d₁.Decodes unit ((c.verdict settings.capacityLimit unit).mapError .allocation)

/-- With valid settings and memory for new buffers a decoder can be started, and while no event waits it
decodes any unit unless that asks for more room than the limit leaves. -/
theorem validated_serves {settings : Settings} (hvalid : settings.validate = .ok ())
    (hatStart : SparesNew settings.memory.atStart settings.capacityLimit)
    (hmemory : settings.Spares) (c : Camera) : c.Serves settings := by
  refine ⟨Decoder.exists_start _ (Settings.capacityLimit_pos hvalid) hatStart, ?_⟩
  intro d d₁ calls x x' log results hstart hsession hpending unit hunit
  obtain ⟨b, hb, rfl⟩ := Ledger.exists_execution { decoder := d } hsession
  have hsupplied := Ledger.supplied_of_session hstart hb.trace
  have hwidth : max c.device.unitWidth 1 = c.device.unitWidth := by cases c <;> rfl
  have hspared : SparesNew b.decoder.collector.memory settings.capacityLimit := by
    rw [Ledger.memory_of_session hstart hb.trace]
    exact hmemory
  rw [← hsupplied.result_make hspared (Decoder.pending_eq_zero_iff.1 hpending)]
  exact b.decoder.decodes (hunit.trans hwidth.symm)

def narrowSettings : Settings :=
  { capacityLimit := 4 }

def sampleGroup : List UInt8 :=
  [0x01, 0x30]

theorem validated_serves_narrow :
    narrowSettings.validate = .ok () ∧
      (Camera.dvXplorer Wire.DvXplorer.fullArray).Serves narrowSettings ∧
      ∃ d, Decoder.start (Camera.dvXplorer Wire.DvXplorer.fullArray).device narrowSettings = .ok d ∧
        d.Decodes (Wire.DvXplorer.Encode.tick 1000) (.ok ()) := by
  have hvalid : narrowSettings.validate = .ok () := by decide
  have hserves := validated_serves hvalid (by decide) (by decide)
    (.dvXplorer Wire.DvXplorer.fullArray)
  obtain ⟨d, hd⟩ := hserves.starts
  have hidle : d.pending = 0 := Decoder.pending_eq_zero_iff.2 (Decoder.start_ok hd).isEmpty
  have hsession : Execution (session Decoder.call [] d) (.start 1) [] (d, []) (.start 1) := .done ..
  exact ⟨hvalid, hserves, d, hd, hserves.decodes hd hsession hidle _ rfl⟩

/-- A pixel group that finds no room: no event waits, and the settings are valid. -/
theorem not_decodes_group_narrow :
    ∃ (d d' : Decoder (Camera.dvXplorer Wire.DvXplorer.fullArray).device) (log : List Occurrence)
      (x' : Exchange), narrowSettings.validate = .ok () ∧
      narrowSettings.validateUnitWidth Wire.DvXplorer.unitWidth = .ok () ∧
      Decoder.start (Camera.dvXplorer Wire.DvXplorer.fullArray).device narrowSettings = .ok d ∧
      d.pending = 0 ∧ Execution (d.decode sampleGroup) (.start 1) log
        (d', .error (.allocation ⟨.polarity, 4, 8⟩)) x' := by
  have hrun : leaves (Camera.dvXplorer Wire.DvXplorer.fullArray).device narrowSettings
      sampleGroup (.start 1) fun _ result =>
        decide (result = .error (.allocation ⟨.polarity, 4, 8⟩)) := by decide +kernel
  obtain ⟨d, d', result, log, x', hd, h, htest⟩ := exists_of_leaves hrun
  obtain rfl := of_decide_eq_true htest
  have hidle : d.pending = 0 := Decoder.pending_eq_zero_iff.2 (Decoder.start_ok hd).isEmpty
  exact ⟨d, d', log, x', by decide, by decide, hd, hidle, h⟩

end EventCamera
