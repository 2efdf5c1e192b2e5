import EventCamera.Proofs.Records
import Mathlib.Data.List.GetD
import Mathlib.Logic.Function.Iterate

/-! # The bytes of an inertial sample

The sensors that are on send their values one behind the other, two bytes for each. The count of a sample
comes to its end after just as many bytes as they send: before that it is lower, and it never falls. -/

namespace EventCamera.Wire.DvXplorer

/-- The number of bytes that the sensors send for a sample. -/
def Sensors.payload (s : Sensors) : Nat :=
  6 * s.accelerometer.toNat + 2 * s.thermometer.toNat + 6 * s.gyroscope.toNat

/-- The sample that the sensors send in some bytes, with its values in units of measurement. -/
def Sensors.sampleIn (s : Sensors) (accelScale gyroScale : Float32) (bytes : List UInt8)
    (time : Int) : Imu6Event :=
  let value (sent : Nat) := Imu.value (bytes.getD sent 0) (bytes.getD (sent + 1) 0)
  let warmth := 6 * s.accelerometer.toNat
  let turning := warmth + 2 * s.thermometer.toNat
  { accelY := if s.accelerometer then value 0 / accelScale else 0
    accelX := if s.accelerometer then value 2 / accelScale else 0
    accelZ := if s.accelerometer then value 4 / accelScale else 0
    temperature := if s.thermometer then value warmth / 512 + 23 else 0
    gyroY := if s.gyroscope then value turning / gyroScale else 0
    gyroX := if s.gyroscope then value (turning + 2) / gyroScale else 0
    gyroZ := if s.gyroscope then value (turning + 4) / gyroScale else 0
    time }

/-! ## The count -/

namespace Sensors

theorem lt_countAfter (s : Sensors) {count : Nat} (h : count < 255) : count < s.countAfter count := by
  unfold countAfter sampleBytes
  split
  · split
    · omega
    · split <;> omega
  · split
    · split <;> omega
    · omega

theorem countAfter_le (s : Sensors) (count : Nat) : s.countAfter count ≤ 255 := by
  unfold countAfter sampleBytes
  split
  · split
    · omega
    · split <;> omega
  · split
    · split <;> omega
    · omega

/-- The count grows with every byte, until it stops. -/
theorem lt_iterate_countAfter (s : Sensors) (count : Nat) (h : count < 255) (more : Nat) :
    count < s.countAfter^[more + 1] count := by
  induction more with
  | zero => exact s.lt_countAfter h
  | succ more ih =>
    rw [Function.iterate_succ_apply']
    by_cases hlt : s.countAfter^[more + 1] count < 255
    · exact Nat.lt_trans ih (s.lt_countAfter hlt)
    · have hle : s.countAfter^[more + 1] count ≤ 255 := by
        rw [Function.iterate_succ_apply']
        exact s.countAfter_le _
      have hstopped : s.countAfter^[more + 1] count = 255 := by omega
      rw [hstopped]
      cases s with
      | mk accelerometer gyroscope thermometer => exact h

def turningPlace (s : Sensors) : Nat :=
  if s.gyroscope then 8 else sampleBytes

def warmthPlace (s : Sensors) : Nat :=
  if s.thermometer then 6 else s.turningPlace

theorem countAfter_accelerometer (s : Sensors) : s.countAfter 5 = s.warmthPlace := by
  rcases s with ⟨_ | _, _ | _, _ | _⟩ <;> rfl

theorem countAfter_thermometer (s : Sensors) : s.countAfter 7 = s.turningPlace := by
  rcases s with ⟨_ | _, _ | _, _ | _⟩ <;> rfl

theorem iterate_payload (s : Sensors) :
    s.countAfter^[s.payload] (Imu.firstByte s) = sampleBytes := by
  rcases s with ⟨_ | _, _ | _, _ | _⟩ <;> rfl

/-- A sample is full after just as many bytes as its sensors send. -/
theorem iterate_countAfter_eq_iff (s : Sensors) (bytes : Nat) :
    s.countAfter^[bytes] (Imu.firstByte s) = sampleBytes ↔ bytes = s.payload := by
  constructor
  · intro hfull
    have hpayload := s.iterate_payload
    rcases Nat.lt_trichotomy bytes s.payload with hlt | heq | hgt
    · -- then the count would have grown beyond its end with the bytes that are missing
      obtain ⟨more, hmore⟩ := Nat.exists_eq_add_of_lt hlt
      have hgrown := s.lt_iterate_countAfter sampleBytes (by decide) more
      rw [← hfull, ← Function.iterate_add_apply, hfull,
        show more + 1 + bytes = s.payload by omega, hpayload] at hgrown
      exact absurd hgrown (Nat.lt_irrefl _)
    · exact heq
    · obtain ⟨more, hmore⟩ := Nat.exists_eq_add_of_lt hgt
      have hgrown := s.lt_iterate_countAfter sampleBytes (by decide) more
      rw [← hpayload, ← Function.iterate_add_apply, hpayload,
        show more + 1 + s.payload = bytes by omega, hfull] at hgrown
      exact absurd hgrown (Nat.lt_irrefl _)
  · rintro rfl
    exact s.iterate_payload

end Sensors

/-! ## The values -/

namespace Imu

/-- What bytes make of the sensors, one after the other. -/
def fed (m : Imu) (bytes : List UInt8) : Imu :=
  bytes.foldl (fun m byte => (m.data byte).1) m

variable {m : Imu} {bytes : List UInt8} {place next sent : Nat}

@[simp] theorem fed_nil (m : Imu) : m.fed [] = m := rfl

theorem fed_cons (m : Imu) (byte : UInt8) (bytes : List UInt8) :
    m.fed (byte :: bytes) = (m.data byte).1.fed bytes := rfl

theorem count_fed (m : Imu) (bytes : List UInt8) :
    (m.fed bytes).scratch.count = m.sensors.countAfter^[bytes.length] m.scratch.count := by
  induction bytes generalizing m with
  | nil => rfl
  | cons byte bytes ih =>
    obtain ⟨event, high, hdata⟩ := m.exists_data_eq byte
    rw [fed_cons, ih, hdata]
    rfl

/-- The same sensors at a count, with what values left behind: the high byte of the last one, and the
sample. -/
def stored (m : Imu) (high : UInt8) (event : Imu6Event) (count : Nat) : Imu :=
  { m with high, scratch := { m.scratch with event, count } }

@[simp] theorem stored_event (m : Imu) (high : UInt8) (event : Imu6Event) (count : Nat) :
    (m.stored high event count).scratch.event = event := rfl

/-- The value of two bytes in its unit of measurement, by the place of the high one. -/
def reading (m : Imu) (place : Nat) (high low : UInt8) : Float32 :=
  if place < 6 then value high low / m.accelScale
  else if place < 8 then value high low / 512 + 23
  else value high low / m.gyroScale

/-- Puts a value into a sample, by the place of its high byte. -/
def put (event : Imu6Event) (place : Nat) (v : Float32) : Imu6Event :=
  match place with
  | 0 => { event with accelY := v }
  | 2 => { event with accelX := v }
  | 4 => { event with accelZ := v }
  | 6 => { event with temperature := v }
  | 8 => { event with gyroY := v }
  | 10 => { event with gyroX := v }
  | _ => { event with gyroZ := v }

/-- Two bytes at the place of a value put it into the sample, and the count goes on to the next one. -/
theorem fed_pair (hnext : m.sensors.countAfter (place + 1) = next) (heven : place % 2 = 0)
    (hlt : place < sampleBytes) (last high low : UInt8) (event : Imu6Event) (rest : List UInt8) :
    (m.stored last event place).fed (high :: low :: rest) =
      (m.stored high (put event place (m.reading place high low)) next).fed rest := by
  obtain ⟨⟨_, _, ignoring⟩, ⟨accelerometer, gyroscope, thermometer⟩, _, _, _⟩ := m
  subst hnext
  unfold sampleBytes at hlt
  obtain rfl | rfl | rfl | rfl | rfl | rfl | rfl : place = 0 ∨ place = 2 ∨ place = 4 ∨ place = 6 ∨
    place = 8 ∨ place = 10 ∨ place = 12 := by omega
  case inr.inr.inl => cases thermometer <;> cases gyroscope <;> rfl
  case inr.inr.inr.inl => cases gyroscope <;> rfl
  all_goals rfl

/-- Puts two of some bytes into a sample, as the value at a place. -/
def putValue (m : Imu) (bytes : List UInt8) (event : Imu6Event) (place sent : Nat) : Imu6Event :=
  put event place (m.reading place (bytes.getD sent 0) (bytes.getD (sent + 1) 0))

/-- Puts six of some bytes into a sample, as the values of the axes of a sensor. -/
def putAxes (m : Imu) (bytes : List UInt8) (event : Imu6Event) (place sent : Nat) : Imu6Event :=
  m.putValue bytes (m.putValue bytes (m.putValue bytes event place sent) (place + 2) (sent + 2))
    (place + 4) (sent + 4)

/-- The two bytes of a value, wherever they stand among those that are sent. -/
theorem fed_value (hnext : m.sensors.countAfter (place + 1) = next) (heven : place % 2 = 0)
    (hlt : place < sampleBytes) (h : sent + 2 ≤ bytes.length) (last : UInt8) (event : Imu6Event) :
    (m.stored last event place).fed (bytes.drop sent) =
      (m.stored (bytes.getD sent 0) (m.putValue bytes event place sent) next).fed
        (bytes.drop (sent + 2)) := by
  have hhigh : sent < bytes.length := by omega
  have hlow : sent + 1 < bytes.length := by omega
  rw [List.drop_eq_getElem_cons hhigh, List.drop_eq_getElem_cons hlow, fed_pair hnext heven hlt,
    putValue, List.getD_eq_getElem _ _ hhigh, List.getD_eq_getElem _ _ hlow]

/-- The values of the three axes of a sensor follow one another. -/
theorem fed_axes (hnext : m.sensors.countAfter (place + 5) = next) (hplace : place = 0 ∨ place = 8)
    (h : sent + 6 ≤ bytes.length) (last : UInt8) (event : Imu6Event) :
    (m.stored last event place).fed (bytes.drop sent) =
      (m.stored (bytes.getD (sent + 4) 0) (m.putAxes bytes event place sent) next).fed
        (bytes.drop (sent + 6)) := by
  have hsecond : m.sensors.countAfter (place + 1) = place + 2 := by
    rcases hplace with rfl | rfl <;> rfl
  have hthird : m.sensors.countAfter (place + 3) = place + 4 := by
    rcases hplace with rfl | rfl <;> rfl
  have hbound : place + 4 < sampleBytes := by
    rcases hplace with rfl | rfl <;> decide
  rw [fed_value hsecond (by omega) (by omega) (by omega),
    fed_value hthird (by omega) (by omega) (by omega), fed_value hnext (by omega) hbound h]
  rfl

theorem exists_fed_value {on : Bool} (hnext : m.sensors.countAfter (place + 1) = next)
    (heven : place % 2 = 0) (hlt : place < sampleBytes) (h : sent + 2 * on.toNat ≤ bytes.length)
    (last : UInt8) (event : Imu6Event) :
    ∃ high, (m.stored last event (if on then place else next)).fed (bytes.drop sent) =
      (m.stored high (if on then m.putValue bytes event place sent else event) next).fed
        (bytes.drop (sent + 2 * on.toNat)) := by
  cases on with
  | false => exact ⟨last, rfl⟩
  | true => exact ⟨_, fed_value hnext heven hlt h last event⟩

theorem exists_fed_axes {on : Bool} (hnext : m.sensors.countAfter (place + 5) = next)
    (hplace : place = 0 ∨ place = 8) (h : sent + 6 * on.toNat ≤ bytes.length)
    (last : UInt8) (event : Imu6Event) :
    ∃ high, (m.stored last event (if on then place else next)).fed (bytes.drop sent) =
      (m.stored high (if on then m.putAxes bytes event place sent else event) next).fed
        (bytes.drop (sent + 6 * on.toNat)) := by
  cases on with
  | false => exact ⟨last, rfl⟩
  | true => exact ⟨_, fed_axes hnext hplace h last event⟩

/-- The bytes that the sensors send fill a sample with their values. -/
theorem fed_payload (m : Imu) (last : UInt8) (h : bytes.length = m.sensors.payload) :
    ((m.stored last {} (firstByte m.sensors)).fed bytes).scratch.event =
      m.sensors.sampleIn m.accelScale m.gyroScale bytes 0 := by
  unfold Sensors.payload at h
  have hmoving : 0 + 6 * m.sensors.accelerometer.toNat ≤ bytes.length := by omega
  have hwarm : 0 + 6 * m.sensors.accelerometer.toNat + 2 * m.sensors.thermometer.toNat ≤
    bytes.length := by omega
  have hturning : 0 + 6 * m.sensors.accelerometer.toNat + 2 * m.sensors.thermometer.toNat +
    6 * m.sensors.gyroscope.toNat ≤ bytes.length := by omega
  -- the three sensors take their bytes one behind the other, and none are left
  obtain ⟨_, haccel⟩ := exists_fed_axes m.sensors.countAfter_accelerometer (.inl rfl) hmoving last {}
  obtain ⟨_, hwarmth⟩ := exists_fed_value m.sensors.countAfter_thermometer rfl (by decide) hwarm _ _
  obtain ⟨_, hgyro⟩ := exists_fed_axes rfl (.inr rfl) hturning _ _
  refine (congrArg (·.scratch.event) (haccel.trans (hwarmth.trans hgyro))).trans ?_
  rw [List.drop_eq_nil_of_le (by omega), fed_nil, stored_event]
  obtain ⟨_, ⟨accelerometer, gyroscope, thermometer⟩, _, _, _⟩ := m
  cases accelerometer <;> cases thermometer <;> cases gyroscope <;>
    simp -implicitDefEqProofs [Sensors.sampleIn, putAxes, putValue, put, reading]

/-- An end marker completes a sample with just as many bytes as its sensors send. -/
theorem outcome_fed (m : Imu) (last : UInt8) (bytes : List UInt8) (time : Int) :
    (bytes.length = m.sensors.payload →
      ((m.stored last {} (firstByte m.sensors)).fed bytes).scratch.outcome sampleBytes time =
        .complete (.imu6 (m.sensors.sampleIn m.accelScale m.gyroScale bytes time))) ∧
    (bytes.length ≠ m.sensors.payload → ∃ count, count ≠ sampleBytes ∧
      ((m.stored last {} (firstByte m.sensors)).fed bytes).scratch.outcome sampleBytes time =
        .mismatch count sampleBytes) := by
  have hcount : ((m.stored last {} (firstByte m.sensors)).fed bytes).scratch.count =
      m.sensors.countAfter^[bytes.length] (firstByte m.sensors) := count_fed ..
  have hfull := m.sensors.iterate_countAfter_eq_iff bytes.length
  rw [← hcount] at hfull
  unfold ImuScratch.outcome ImuScratch.finish
  refine ⟨fun hlength => ?_, fun hlength => ?_⟩
  · rw [if_pos (hfull.2 hlength)]
    simp only [m.fed_payload last hlength]
    rfl
  · rw [if_neg fun hcount => hlength (hfull.1 hcount)]
    exact ⟨_, fun hcount => hlength (hfull.1 hcount), rfl⟩

end Imu

end EventCamera.Wire.DvXplorer
