import EventCamera.Proofs.Assembly
import EventCamera.Proofs.Payload
import EventCamera.Wire.DvXplorer.Encode

/-! # Inertial samples in a stream

A sample is sent unit by unit, and other units come in between. Whatever a decoder held before the start
marker, the end marker completes the sample just if its bytes are as many as its sensors send. -/

namespace EventCamera

open Wire.DvXplorer

/-! ## Units -/

namespace Wire.DvXplorer

def Sensors.ofMask (mask : Nat) : Sensors where
  accelerometer := mask.testBit 2
  gyroscope := mask.testBit 1
  thermometer := mask.testBit 0

/-- The data of a unit that configures the sensors. -/
def configWord (sensors accel gyro : Nat) : Nat :=
  3 <<< 8 + field sensors 0 3 <<< 5 + field accel 0 2 <<< 3 + field gyro 0 3

theorem configWord_eq (sensors accel gyro : Nat) :
    configWord sensors accel gyro = 768 + 32 * (sensors % 8) + 8 * (accel % 4) + gyro % 8 := by
  simp only [configWord, field_eq, Nat.shiftLeft_eq]
  omega

theorem parts_of_word {w code data : Nat} (h : w = 2 ^ 12 * code + data) (hcode : code < 2 ^ 3)
    (hdata : data < 2 ^ 12) : flag w 15 = false ∧ field w 0 12 = data ∧ field w 12 3 = code := by
  have hlt : w < 2 ^ (15 + 1) := by omega
  refine ⟨?_, ?_, ?_⟩
  · rw [Bool.eq_false_iff]
    intro hflag
    have := (flag_iff hlt).1 hflag
    omega
  · rw [field_eq]
    omega
  · rw [field_eq]
    omega

theorem read_unit (g : Geometry) (s : State) (code data : Nat) :
    ∃ w, flag w 15 = false ∧ field w 0 12 = data % 2 ^ 12 ∧ field w 12 3 = code % 2 ^ 3 ∧
      (classify g s (Encode.unit code data)).codes = (s.address.read g w).codes ∧
      (classify g s (Encode.unit code data)).state =
        { s with address := (s.address.read g w).address } := by
  have hword : word (UInt8.ofNat (field code 0 3 <<< 12 + field data 0 12))
      (UInt8.ofNat ((field code 0 3 <<< 12 + field data 0 12) / 256)) =
        2 ^ 12 * (code % 2 ^ 3) + data % 2 ^ 12 := by
    simp only [word, field_eq, Nat.shiftLeft_eq, UInt8.toNat_ofNat']
    omega
  obtain ⟨hflag, hdata, hcode⟩ := parts_of_word hword (Nat.mod_lt _ (by decide))
    (Nat.mod_lt _ (by decide))
  exact ⟨_, hflag, hdata, hcode, rfl, rfl⟩

/-- A unit is a step of a sample, whatever was sent before. -/
def Sends (g : Geometry) (unit : List UInt8) (step : CompositeStep) : Prop :=
  ∀ s, (classify g s unit).codes = [.composite .imu6 step]

theorem sends_imuStart (g : Geometry) : Sends g Encode.imuStart .start :=
  fun _ => rfl

theorem sends_imuByte (g : Geometry) (byte : UInt8) :
    Sends g (Encode.imuByte byte.toNat) (.data byte) := by
  intro s
  have hbyte := byte.toNat_lt
  obtain ⟨w, hflag, hdata, hcode, hcodes, -⟩ := read_unit g s 5 (field byte.toNat 0 8)
  have hkind : field (field byte.toNat 0 8 % 2 ^ 12) 8 4 = 0 := by
    simp only [field_eq]
    omega
  have hlow : field (field byte.toNat 0 8 % 2 ^ 12) 0 8 = byte.toNat := by
    simp only [field_eq]
    omega
  rw [Encode.imuByte, hcodes]
  simp only [Address.read, hflag, hdata, hcode, Address.misc, hkind, hlow, UInt8.ofNat_toNat]
  rfl

theorem sends_imuConfig (g : Geometry) (sensors accel gyro : Nat) :
    Sends g (Encode.imuConfig sensors accel gyro)
      (.config (.ofNat (configWord sensors accel gyro))) := by
  intro s
  have hword := configWord_eq sensors accel gyro
  obtain ⟨w, hflag, hdata, hcode, hcodes, -⟩ := read_unit g s 5 (configWord sensors accel gyro)
  have hkeep : configWord sensors accel gyro % 2 ^ 12 = configWord sensors accel gyro := by omega
  have hkind : field (configWord sensors accel gyro) 8 4 = 3 := by
    rw [field_eq]
    omega
  rw [hkeep] at hdata
  change (classify g s (Encode.unit 5 (configWord sensors accel gyro))).codes = _
  rw [hcodes]
  simp only [Address.read, hflag, hdata, hcode, Address.misc, hkind]
  rfl

def sampleSteps (sensors accel gyro : Nat) (bytes : List UInt8) : List CompositeStep :=
  .start :: .config (.ofNat (configWord sensors accel gyro)) :: bytes.map .data

def sampleUnits (sensors accel gyro : Nat) (bytes : List UInt8) : List (List UInt8) :=
  Encode.imuStart :: Encode.imuConfig sensors accel gyro ::
    bytes.map fun byte => Encode.imuByte byte.toNat

theorem sends_sampleUnits (g : Geometry) (sensors accel gyro : Nat) (bytes : List UInt8) :
    List.Forall₂ (Sends g) (sampleUnits sensors accel gyro bytes)
      (sampleSteps sensors accel gyro bytes) := by
  refine .cons (sends_imuStart g) (.cons (sends_imuConfig g sensors accel gyro) ?_)
  induction bytes with
  | nil => exact .nil
  | cons byte bytes ih => exact .cons (sends_imuByte g byte) ih

theorem ne_finish_of_mem_sampleSteps {sensors accel gyro : Nat} {bytes : List UInt8}
    {step : CompositeStep} (h : step ∈ sampleSteps sensors accel gyro bytes) : step ≠ .finish := by
  simp only [sampleSteps, List.mem_cons, List.mem_map] at h
  rcases h with rfl | rfl | ⟨byte, -, rfl⟩ <;> simp

namespace Imu

/-- What steps make of the sensors. The times of the steps make no difference to them. -/
def stepped (m : Imu) (steps : List CompositeStep) : Imu :=
  steps.foldl (fun m step => (m.apply step 0).state) m

theorem stepped_data {m : Imu} (h : m.scratch.ignoring = false) (bytes : List UInt8) :
    m.stepped (bytes.map .data) = m.fed bytes ∧ (m.fed bytes).scratch.ignoring = false := by
  induction bytes generalizing m with
  | nil => exact ⟨rfl, h⟩
  | cons byte bytes ih =>
    obtain ⟨event, high, hdata⟩ := m.exists_data_eq byte
    have hstep : (m.apply (.data byte) 0).state = (m.data byte).1 := by
      unfold apply
      rw [h]
    have hopen : (m.data byte).1.scratch.ignoring = false := by
      rw [hdata]
      exact h
    rw [List.map_cons, stepped, List.foldl_cons, hstep]
    exact ih hopen

/-- Whatever the sensors were set to, a start marker and a configuration make them ready for the bytes of
a sample. -/
theorem stepped_sample (m : Imu) (sensors accel gyro : Nat) (bytes : List UInt8) :
    ∃ ready : Imu, ready.sensors = .ofMask sensors ∧
      ready.accelScale = DvXplorer.accelScale accel ∧ ready.gyroScale = DvXplorer.gyroScale gyro ∧
      m.stepped (sampleSteps sensors accel gyro bytes) =
        (ready.stored m.high {} (firstByte ready.sensors)).fed bytes ∧
      (m.stepped (sampleSteps sensors accel gyro bytes)).scratch.ignoring = false := by
  have hword := configWord_eq sensors accel gyro
  have hkeep : (UInt16.ofNat (configWord sensors accel gyro)).toNat =
      configWord sensors accel gyro := UInt16.toNat_ofNat_of_lt' (by unfold UInt16.size; omega)
  have hready : m.stepped (sampleSteps sensors accel gyro bytes) =
      (m.start.configure (configWord sensors accel gyro)).1.stepped (bytes.map .data) := by
    rw [← hkeep]
    rfl
  obtain ⟨hfed, hopen⟩ := stepped_data (m := (m.start.configure (configWord sensors accel gyro)).1)
    rfl bytes
  refine ⟨(m.start.configure (configWord sensors accel gyro)).1, ?_, ?_, ?_, ?_, ?_⟩
  · simp only [configure, sensorsOf, Sensors.ofMask, flag, field_eq,
      Nat.testBit_eq_decide_div_mod_eq, Sensors.mk.injEq, decide_eq_decide]
    omega
  · have hscale : configWord sensors accel gyro >>> 3 % 4 = accel % 4 := by
      rw [Nat.shiftRight_eq_div_pow]
      omega
    simp only [configure, DvXplorer.accelScale, hscale]
  · have hscale : configWord sensors accel gyro % 8 = gyro % 8 := by omega
    simp only [configure, DvXplorer.gyroScale, hscale]
  · rw [hready, hfed]
    rfl
  · rw [hready, hfed]
    exact hopen

end Imu

end Wire.DvXplorer

/-! ## Units that come in between -/

namespace Decoder

variable {dev : Device} {d : Decoder dev}

/-- A unit that neither sends a step of a composite nor forces anything. -/
def Passes (d : Decoder dev) (unit : List UInt8) : Prop :=
  ∀ code ∈ (dev.classify d.device unit).codes,
    (∀ kind step, code ≠ .composite kind step) ∧ d.forcedBy code = none

/-- Codes that send no step of a composite do not concern the device. -/
theorem device_forEach {codes : List Code}
    (h : ∀ code ∈ codes, ∀ kind step, code ≠ .composite kind step) :
    (forEach apply codes d).decoder.device = d.device := by
  induction codes generalizing d with
  | nil => rfl
  | cons code codes ih =>
    obtain ⟨hcode, hrest⟩ := List.forall_mem_cons.1 h
    have hfirst : (apply code d).decoder.device = d.device := device_apply hcode
    simp only [forEach, Applied.andThen]
    cases (apply code d).result with
    | error e => exact hfirst
    | ok forced => exact (ih hrest).trans hfirst

theorem additions_eq_nil {k : EventKind} {past : List (List UInt8)} {codes : List Code}
    (h : ∀ code ∈ codes, ∀ d : Decoder dev, d.asked code k = []) :
    additions past codes d k = [] := by
  induction codes generalizing d with
  | nil => rfl
  | cons code codes ih =>
    obtain ⟨hcode, hrest⟩ := List.forall_mem_cons.1 h
    simp only [additions]
    cases (apply code d).result with
    | error e => rfl
    | ok forced =>
      simp only [hcode d, List.map_nil, List.nil_append]
      exact ih hrest

theorem device_make_of_none {unit : List UInt8}
    (h : ∀ forced, (d.applyUnit unit).result = .ok forced → forced = none) :
    (d.make (.unit unit)).decoder.device = (d.applyUnit unit).decoder.device := by
  rw [device_make h]
  rfl

end Decoder

namespace Wire.DvXplorer

theorem Imu.state_apply (m : Imu) (step : CompositeStep) (time time' : Int) :
    (m.apply step time).state = (m.apply step time').state := by
  unfold apply
  cases step <;> cases m.scratch.ignoring <;> rfl

variable {g : Geometry} {d : Decoder (device g)}

theorem asked_imu6 {code : Code} (h : ∀ kind step, code ≠ .composite kind step) :
    d.asked code .imu6 = [] := by
  cases code with
  | tick | reset => rfl
  | wrap multiplier =>
    simp only [Decoder.asked]
    split
    · exact only_of_ne _ (by decide)
    · rfl
  | pixel | group | special => exact only_of_ne _ (by decide)
  | composite kind step => exact absurd rfl (h kind step)

theorem asked_imu6_of_ne_finish {step : CompositeStep} (h : step ≠ .finish) :
    d.asked (.composite .imu6 step) .imu6 = [] := by
  simp only [Decoder.asked]
  cases houtcome : ((device g).compose d.device .imu6 step d.clock.current).outcome with
  | pending | ignored | mismatch => rfl
  | complete event =>
    have hclosed : (Scratch.samples.apply d.device.imu step d.clock.current).2 = .complete event :=
      houtcome
    refine absurd (Scratch.samples.finish_of_closed d.device.imu step d.clock.current ?_ ?_) h
    · simp [hclosed]
    · simp [hclosed]

end Wire.DvXplorer

namespace Ledger

variable {g : Geometry} {b : Ledger (device g)} {unit : List UInt8}

/-- The sensors after a unit that forces nothing are what its codes make of them. -/
theorem imu_advance (h : ∀ forced, (b.decoder.applyUnit unit).result = .ok forced → forced = none) :
    (b.advance (.unit unit)).decoder.device.imu =
      (b.decoder.applyUnit unit).decoder.device.imu := by
  rw [decoder_advance, Decoder.device_make_of_none h]

/-- A unit that comes in between leaves a sample alone. -/
theorem advance_of_passes (h : b.decoder.Passes unit) :
    (b.advance (.unit unit)).decoder.device.imu = b.decoder.device.imu ∧
      (b.advance (.unit unit)).added .imu6 = b.added .imu6 := by
  have hforced (forced) (hresult : (b.decoder.applyUnit unit).result = .ok forced) :
      forced = none := by
    rcases (Scratch.samplesKept g).codes_cases b.decoder.device unit with
      ⟨code, hcodes, -⟩ | hleaves
    · have hcode := (h code (hcodes ▸ List.mem_singleton.2 rfl)).2
      rw [Decoder.applyUnit, hcodes, (Decoder.forEach_singleton ..).2] at hresult
      exact (Decoder.forced_apply hresult).trans hcode
    · exact Decoder.forced_forEach hleaves hresult
  constructor
  · rw [imu_advance hforced, Decoder.applyUnit, Decoder.device_forEach fun code hcode => (h code hcode).1]
    exact (Scratch.samplesKept g).record_classify b.decoder.device unit
  · have hnone : b.addedBy unit .imu6 = [] :=
      Decoder.additions_eq_nil fun code hcode _ => asked_imu6 (h code hcode).1
    exact (congrArg (b.added .imu6 ++ ·) hnone).trans (List.append_nil _)

/-- A unit of a sample makes its step, and adds nothing before the end marker. -/
theorem advance_of_sends {step : CompositeStep} (h : Sends g unit step) (hstep : step ≠ .finish) :
    (b.advance (.unit unit)).decoder.device.imu = (b.decoder.device.imu.apply step 0).state ∧
      (b.advance (.unit unit)).added .imu6 = b.added .imu6 := by
  have hcodes : ((device g).classify b.decoder.device unit).codes = [.composite .imu6 step] :=
    h b.decoder.device
  have hforced (forced) (hresult : (b.decoder.applyUnit unit).result = .ok forced) :
      forced = none := by
    rw [Decoder.applyUnit, hcodes] at hresult
    exact Decoder.forced_forEach (List.forall_mem_singleton.2 rfl) hresult
  constructor
  · rw [imu_advance hforced, Decoder.applyUnit, hcodes, (Decoder.forEach_singleton ..).1]
    refine (congrArg State.imu (@Decoder.device_applyComposite (device g) ..)).trans ?_
    have hkeep : ((device g).classify b.decoder.device unit).state.imu = b.decoder.device.imu :=
      (Scratch.samplesKept g).record_classify b.decoder.device unit
    rw [← hkeep]
    exact Imu.state_apply ..
  · have hnone : b.addedBy unit .imu6 = [] := by
      refine Decoder.additions_eq_nil fun code hcode _ => ?_
      rw [hcodes] at hcode
      obtain rfl := List.mem_singleton.1 hcode
      exact asked_imu6_of_ne_finish hstep
    exact (congrArg (b.added .imu6 ++ ·) hnone).trans (List.append_nil _)

/-- Units of a sample among others that come in between. -/
inductive Among : Ledger (device g) → List (List UInt8) → List (List UInt8) → Prop where
  | nil (start : Ledger (device g)) : Among start [] []
  | own {start : Ledger (device g)} (unit : List UInt8) {own units : List (List UInt8)} :
      Among (start.advance (.unit unit)) own units → Among start (unit :: own) (unit :: units)
  | other {start : Ledger (device g)} {unit : List UInt8} {own units : List (List UInt8)} :
      start.decoder.Passes unit → Among (start.advance (.unit unit)) own units →
      Among start own (unit :: units)

/-- The units that come in between make no difference to a sample. -/
theorem Among.run {own units : List (List UInt8)} (h : Among b own units)
    {steps : List CompositeStep} (hsends : List.Forall₂ (Sends g) own steps)
    (hsteps : ∀ step ∈ steps, step ≠ .finish) :
    (b.run (units.map .unit)).decoder.device.imu = b.decoder.device.imu.stepped steps ∧
      (b.run (units.map .unit)).added .imu6 = b.added .imu6 := by
  induction h generalizing steps with
  | nil b =>
    cases hsends
    exact ⟨rfl, rfl⟩
  | @own b unit own units _ ih =>
    cases hsends with
    | @cons _ step _ steps hunit hrest =>
      obtain ⟨hstep, hlater⟩ := List.forall_mem_cons.1 hsteps
      obtain ⟨himu, hadded⟩ := b.advance_of_sends hunit hstep
      obtain ⟨himu', hadded'⟩ := ih hrest hlater
      rw [himu] at himu'
      exact ⟨himu', hadded'.trans hadded⟩
  | @other b unit own units hpasses _ ih =>
    obtain ⟨himu, hadded⟩ := b.advance_of_passes hpasses
    obtain ⟨himu', hadded'⟩ := ih hsends hsteps
    rw [himu] at himu'
    exact ⟨himu', hadded'.trans hadded⟩

end Ledger

/-! ## The end marker -/

namespace Wire.DvXplorer

variable {g : Geometry} {d : Decoder (device g)}

theorem applyUnit_imuEnd (d : Decoder (device g)) :
    d.applyUnit Encode.imuEnd = d.applyComposite .imu6 .finish := by
  have hone : d.applyUnit Encode.imuEnd =
      Decoder.Applied.andThen (d.applyComposite .imu6 .finish) fun d => { decoder := d } := rfl
  have hforced := (d.applyComposite_leavesClockAlone .imu6 .finish).forced_eq
  rw [hone, Decoder.Applied.andThen]
  cases hresult : (d.applyComposite .imu6 .finish).result with
  | error e => rfl
  | ok forced =>
    obtain rfl := hforced forced hresult
    simp only [List.append_nil, Except.map, Forced.merge, ← hresult]

/-- The end marker of an open sample leaves the sensors as they are. -/
theorem compose_finish (h : d.device.imu.scratch.ignoring = false) :
    (device g).compose d.device .imu6 .finish d.clock.current =
      { state := d.device
        outcome := d.device.imu.scratch.outcome sampleBytes d.clock.current } := by
  change DvXplorer.compose d.device .finish d.clock.current = _
  simp only [compose, Imu.apply, h]
  rfl

/-- The end marker of a sample that is complete adds it. -/
theorem applyUnit_imuEnd_of_complete (h : d.device.imu.scratch.ignoring = false)
    {event : Imu6Event}
    (hcomplete : d.device.imu.scratch.outcome sampleBytes d.clock.current =
      .complete (.imu6 event)) :
    d.applyUnit Encode.imuEnd = d.push .imu6 event [] none := by
  rw [applyUnit_imuEnd, Decoder.applyComposite, compose_finish h]
  simp only [hcomplete]
  rfl

/-- The end marker of a sample that is not complete reports it, and leaves everything as it is. -/
theorem applyUnit_imuEnd_of_mismatch (h : d.device.imu.scratch.ignoring = false)
    {count expected : Nat}
    (hmismatch : d.device.imu.scratch.outcome sampleBytes d.clock.current =
      .mismatch count expected) :
    d.applyUnit Encode.imuEnd =
      { decoder := d, notices := [.sampleDiscarded count expected .imu6] } := by
  rw [applyUnit_imuEnd, Decoder.applyComposite, compose_finish h]
  simp only [hmismatch]
  rfl

/-- A complete sample is added if there is room for it. -/
theorem addedBy_imuEnd {b : Ledger (device g)} (h : b.decoder.device.imu.scratch.ignoring = false)
    {event : Imu6Event}
    (hcomplete : b.decoder.device.imu.scratch.outcome sampleBytes b.decoder.clock.current =
      .complete (.imu6 event)) :
    b.addedBy Encode.imuEnd .imu6 = if (b.decoder.collector.capacityFor .imu6 1).isOk then
      [⟨event, (b.decoder.buffer .imu6).epoch, b.units ++ [Encode.imuEnd]⟩] else [] := by
  have hasked : b.decoder.asked (.composite .imu6 .finish) .imu6 = [event] := by
    simp only [Decoder.asked, compose_finish h, hcomplete]
    exact only_self ..
  have happly : (Decoder.apply (.composite .imu6 .finish) b.decoder).result =
      (b.decoder.push .imu6 event [] none).result := by
    rw [← applyUnit_imuEnd_of_complete h hcomplete, applyUnit_imuEnd]
    rfl
  change Decoder.additions (b.units ++ [Encode.imuEnd]) [.composite .imu6 .finish] b.decoder .imu6 = _
  simp only [Decoder.additions, happly, hasked, Decoder.push]
  cases b.decoder.collector.capacityFor .imu6 1 with
  | error e => rfl
  | ok capacity => rfl

theorem addedBy_imuEnd_of_mismatch {b : Ledger (device g)}
    (h : b.decoder.device.imu.scratch.ignoring = false) {count expected : Nat}
    (hmismatch : b.decoder.device.imu.scratch.outcome sampleBytes b.decoder.clock.current =
      .mismatch count expected) : b.addedBy Encode.imuEnd .imu6 = [] := by
  have hasked : b.decoder.asked (.composite .imu6 .finish) .imu6 = [] := by
    simp only [Decoder.asked, compose_finish h, hmismatch]
  change Decoder.additions (b.units ++ [Encode.imuEnd]) [.composite .imu6 .finish] b.decoder .imu6 = _
  simp only [Decoder.additions, hasked]
  cases (Decoder.apply (.composite .imu6 .finish) b.decoder).result with
  | error e => rfl
  | ok forced => rfl

end Wire.DvXplorer

/-! ## Which units come in between -/

namespace Wire.DvXplorer

/-- A unit that is a tick, an address, a pixel group or a special other than a reset and the markers of a
sample. -/
def apart : List UInt8 → Bool
  | low :: high :: _ =>
    let unit := word low high
    2 ^ 15 ≤ unit ||
      (unit / 2 ^ 12 != 5 && unit / 2 ^ 12 != 7 && unit != 1 && unit != 5 && unit != 7)
  | _ => true

theorem special_apart (a : Address) {data : Nat} (hstart : data ≠ 5) (hend : data ≠ 7) :
    ∀ code ∈ (a.special data).codes, ∀ kind step, code ≠ .composite kind step := by
  unfold Address.special
  split
  case h_6 => exact absurd rfl hstart
  case h_7 => exact absurd rfl hend
  all_goals simp

theorem moveColumn_apart (g : Geometry) (a : Address) (data : Nat) :
    ∀ code ∈ (a.moveColumn g data).codes, ∀ kind step, code ≠ .composite kind step := by
  unfold Address.moveColumn
  by_cases hstart : flag data 11
  all_goals
    simp only [hstart, if_true]
    split <;> simp

theorem moveRows_apart (g : Geometry) (a : Address) (data : Nat) :
    ∀ code ∈ (a.moveRows g data).codes, ∀ kind step, code ≠ .composite kind step := by
  unfold Address.moveRows
  simp only
  split
  · exact nofun
  · split <;> exact nofun

/-- Such a unit sends no step of a sample. -/
theorem codes_of_apart (g : Geometry) (s : State) {unit : List UInt8} (h : apart unit) :
    ∀ code ∈ (classify g s unit).codes, ∀ kind step, code ≠ .composite kind step := by
  match unit with
  | low :: high :: _ =>
    have hword := word_lt low high
    simp only [apart, Bool.or_eq_true, Bool.and_eq_true, decide_eq_true_eq, bne_iff_ne] at h
    simp only [classify, Address.read, flag_iff hword]
    have hdata : field (word low high) 0 12 = word low high % 2 ^ 12 := by
      rw [field_eq]
      omega
    have hcode : field (word low high) 12 3 = word low high / 2 ^ 12 % 2 ^ 3 := by
      rw [field_eq]
    rw [hdata, hcode]
    generalize word low high = w at h ⊢
    split
    · simp
    · split
      · exact special_apart s.address (by omega) (by omega)
      · exact moveColumn_apart g s.address _
      · simp [Address.pixelGroup]
      · simp [Address.pixelGroup]
      · exact moveRows_apart g s.address _
      · omega
      · omega
      · exact List.forall_mem_nil _
  | [] | [_] => exact List.forall_mem_nil _

theorem turns_of_plain {code : Code} (h : code.Plain) : code.turns = false := by
  cases code with
  | tick | wrap | reset => cases h
  | pixel | group | special | composite => rfl

theorem passes_of_apart (d : Decoder (device g)) {unit : List UInt8} (h : apart unit) :
    d.Passes unit := by
  intro code hcode
  refine ⟨codes_of_apart g d.device h code hcode, Decoder.forcedBy_of_not_turns ?_⟩
  by_cases hsilent : mark unit = .silent
  · exact turns_of_plain (plain_of_silent g d.device hsilent code hcode)
  · change code ∈ (classify g d.device unit).codes at hcode
    rw [codes_of_mark g d.device hsilent] at hcode
    match unit with
    | low :: high :: _ =>
      simp only [apart, Bool.or_eq_true, Bool.and_eq_true, decide_eq_true_eq, bne_iff_ne] at h
      simp only [mark] at hcode hsilent
      generalize word low high = w at h hcode hsilent
      by_cases htick : 2 ^ 15 ≤ w
      · rw [if_pos htick] at hcode
        obtain rfl := List.mem_singleton.1 hcode
        rfl
      · rw [if_neg htick, if_neg (by omega), if_neg (by omega)] at hsilent
        exact absurd rfl hsilent
    | [] | [_] => exact absurd rfl hsilent

/-- A wrap within an epoch comes in between as well. -/
theorem passes_of_turns {d : Decoder (device g)} {unit : List UInt8} {count : Nat}
    (hmark : mark unit = .turns count) (h : d.clock.endsEpoch (.ofNat count) = false) :
    d.Passes unit := by
  intro code hcode
  change code ∈ (classify g d.device unit).codes at hcode
  rw [codes_of_mark g d.device (by simp [hmark]), hmark] at hcode
  obtain rfl := List.mem_singleton.1 hcode
  refine ⟨nofun, ?_⟩
  simp only [Decoder.forcedBy, h]
  rfl

end Wire.DvXplorer

/-- Inertial samples are put together exactly. Whatever a decoder holds, let it decode the units of a
sample, with others in between that neither belong to a sample nor force anything. Its end marker completes
the sample just if its bytes are as many as its sensors send. The sample then has the time of the end
marker, and the values of these bytes; what is off is zero. Else the end marker is reported, and nothing
is added. -/
theorem sample_assembled {g : Geometry} (b : Ledger (device g)) (sensors accel gyro : Nat)
    (bytes : List UInt8) {units : List (List UInt8)}
    (h : b.Among (sampleUnits sensors accel gyro bytes) units) {d : Decoder (device g)}
    (hd : (b.run (units.map .unit)).decoder = d) {event : Imu6Event}
    (hevent : (Sensors.ofMask sensors).sampleIn (accelScale accel) (gyroScale gyro) bytes
      d.clock.current = event) :
    (bytes.length = (Sensors.ofMask sensors).payload →
      d.applyUnit Encode.imuEnd = d.push .imu6 event [] none) ∧
    (bytes.length ≠ (Sensors.ofMask sensors).payload → ∃ count, count ≠ sampleBytes ∧
      d.applyUnit Encode.imuEnd =
        { decoder := d, notices := [.sampleDiscarded count sampleBytes .imu6] }) ∧
    (b.run ((units ++ [Encode.imuEnd]).map .unit)).added .imu6 = b.added .imu6 ++
      if bytes.length = (Sensors.ofMask sensors).payload ∧
          (d.collector.capacityFor .imu6 1).isOk then
        [⟨event, (d.buffer .imu6).epoch, b.units ++ units ++ [Encode.imuEnd]⟩]
      else [] := by
  obtain ⟨himu, hadded⟩ := h.run (sends_sampleUnits g sensors accel gyro bytes)
    fun step => ne_finish_of_mem_sampleSteps
  obtain ⟨ready, hsensors, haccel, hgyro, hfed, hopen⟩ :=
    b.decoder.device.imu.stepped_sample sensors accel gyro bytes
  obtain ⟨hcomplete, hdiscarded⟩ := ready.outcome_fed b.decoder.device.imu.high bytes d.clock.current
  rw [← hfed, ← himu, hd, hsensors] at hcomplete hdiscarded
  rw [haccel, hgyro, hevent] at hcomplete
  rw [← himu, hd] at hopen
  have hlast : (b.run ((units ++ [Encode.imuEnd]).map .unit)).added .imu6 =
      b.added .imu6 ++ (b.run (units.map .unit)).addedBy Encode.imuEnd .imu6 := by
    rw [List.map_append, Ledger.run_append, ← hadded]
    rfl
  have hunits : (b.run (units.map .unit)).units = b.units ++ units := b.units_run_units units
  subst hd
  refine ⟨fun hlength => ?_, fun hlength => ?_, ?_⟩
  · exact applyUnit_imuEnd_of_complete hopen (hcomplete hlength)
  · obtain ⟨count, hcount, houtcome⟩ := hdiscarded hlength
    exact ⟨count, hcount, applyUnit_imuEnd_of_mismatch hopen houtcome⟩
  · rw [hlast]
    by_cases hlength : bytes.length = (Sensors.ofMask sensors).payload
    · rw [addedBy_imuEnd hopen (hcomplete hlength), hunits]
      simp only [hlength, true_and]
    · obtain ⟨count, -, houtcome⟩ := hdiscarded hlength
      rw [addedBy_imuEnd_of_mismatch hopen houtcome]
      simp only [hlength, false_and, if_false]

/-- The sample of a thermometer, between ticks. -/
theorem sample_assembled_thermometer :
    ∃ (d : Decoder (device fullArray)) (event : Imu6Event),
      Decoder.start (device fullArray) {} = .ok d ∧ event.accelX = 0 ∧
      event.temperature = Imu.value 3 232 / 512 + 23 ∧
      ∃ d', (Ledger.run { decoder := d } ([Encode.tick 100, Encode.imuStart, Encode.imuConfig 1 0 0,
          Encode.imuByte 3, Encode.tick 200, Encode.imuByte 232].map .unit)).decoder = d' ∧
        d'.applyUnit Encode.imuEnd = d'.push .imu6 event [] none := by
  obtain ⟨d, hd⟩ : ∃ d, Decoder.start (device fullArray) {} = .ok d := ⟨_, rfl⟩
  have h : Ledger.Among { decoder := d } (sampleUnits 1 0 0 [3, 232])
      [Encode.tick 100, Encode.imuStart, Encode.imuConfig 1 0 0, Encode.imuByte 3, Encode.tick 200,
        Encode.imuByte 232] :=
    .other (passes_of_apart _ (by decide)) (.own _ (.own _ (.own _
      (.other (passes_of_apart _ (by decide)) (.own _ (.nil _))))))
  obtain ⟨hcomplete, -⟩ := sample_assembled _ 1 0 0 [3, 232] h rfl rfl
  exact ⟨d, _, hd, rfl, rfl, _, rfl, hcomplete rfl⟩

end EventCamera
