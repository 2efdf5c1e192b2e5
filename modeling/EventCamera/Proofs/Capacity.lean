import EventCamera.Proofs.Refusal

/-! # Room in the buffers

A buffer has the usual capacity of its kind, or the limit if that is less, and it only grows from
there. So an empty buffer takes whatever the limit leaves room for, and a buffer that cannot take another
event is full and is not allowed to double. -/

namespace EventCamera

/-! ## Doubling -/

theorem capacity_le_doubledTo (demand capacity : Nat) : capacity ≤ doubledTo demand capacity := by
  fun_induction doubledTo demand capacity with
  | case1 capacity _ ih => omega
  | case2 capacity hstop => exact Nat.le_refl _

/-- Doubling stops before it comes to twice the demand. -/
theorem doubledTo_lt {demand capacity : Nat} (h : capacity < demand) :
    doubledTo demand capacity < 2 * demand := by
  fun_induction doubledTo demand capacity with
  | case1 capacity hgrows ih =>
    by_cases hagain : 2 * capacity < demand
    · exact ih hagain
    · rw [doubledTo, if_neg (fun hmore => hagain hmore.2)]
      omega
  | case2 capacity hstop => omega

theorem doubledTo_succ {capacity : Nat} (h : 0 < capacity) :
    doubledTo (capacity + 1) capacity = 2 * capacity := by
  rw [doubledTo, if_pos ⟨h, Nat.lt_succ_self _⟩, doubledTo, if_neg (by omega)]

/-! ## Buffers -/

theorem EventKind.recordSize_pos (k : EventKind) : 0 < k.recordSize := by
  cases k <;> decide

theorem EventKind.defaultCapacity_le (k : EventKind) : k.defaultCapacity ≤ 8192 := by
  cases k <;> decide

namespace Buffer

variable {k : EventKind} {b : Buffer k} {more memory capacity : Nat}

/-- A buffer has at least the usual capacity under its limit, no more than the limit and the memory
allow, and enough for the events that it holds. -/
structure Provided (b : Buffer k) : Prop where
  usual_le : min k.defaultCapacity b.limit ≤ b.capacity
  capacity_pos : 0 < b.capacity
  le_limit : b.capacity ≤ b.limit
  le_memory : b.capacity * k.recordSize ≤ maxReservation
  size_le : b.size ≤ b.capacity

theorem two_mul_lt_maxCount (h : capacity * k.recordSize ≤ maxReservation) :
    2 * capacity < maxCount := by
  have hle : capacity ≤ capacity * k.recordSize := Nat.le_mul_of_pos_right _ k.recordSize_pos
  unfold maxReservation at h
  unfold maxCount
  omega

theorem ofKind_provided {limit : Nat} {epoch : Int} (h : ofKind k limit epoch memory = .ok b) :
    b.Provided := by
  obtain ⟨hempty, -, hlimit, hpos⟩ := ofKind_ok h
  have hsize : b.size = 0 := Array.size_eq_zero_iff.2 (Array.isEmpty_iff.1 hempty)
  unfold ofKind withCapacity grant at h
  split at h
  · rename_i hgranted
    cases h
    have hdefault : 0 < k.defaultCapacity := by cases k <;> decide
    exact ⟨Nat.le_max_left .., by simp only; omega, hgranted.1, by simp only; omega, by omega⟩
  · cases h

theorem Provided.withRoom (h : b.Provided) (hroom : b.capacityFor more memory = .ok capacity) :
    (b.withRoom capacity).Provided := by
  unfold Buffer.capacityFor at hroom
  by_cases hle : min (b.size + more) maxCount ≤ b.capacity
  · rw [if_pos hle] at hroom
    cases hroom
    exact h
  · rw [if_neg hle] at hroom
    unfold grant at hroom
    split at hroom
    · rename_i hgranted
      cases hroom
      have hcount := two_mul_lt_maxCount h.le_memory
      have hgrown := capacity_le_doubledTo (min (b.size + more) maxCount) b.capacity
      have hle : b.capacity ≤ min (doubledTo (min (b.size + more) maxCount) b.capacity) maxCount := by
        omega
      exact ⟨Nat.le_trans h.usual_le hle, Nat.lt_of_lt_of_le h.capacity_pos hle, hgranted.1,
        by simp only [Buffer.withRoom]; omega, Nat.le_trans h.size_le hle⟩
    · cases hroom

theorem Provided.append (h : b.Provided) (hroom : b.capacityFor 1 memory = .ok capacity)
    (event : k.Record) : (b.append capacity event).Provided := by
  have hmade := h.withRoom hroom
  refine ⟨hmade.usual_le, hmade.capacity_pos, hmade.le_limit, hmade.le_memory, ?_⟩
  have hcount := two_mul_lt_maxCount h.le_memory
  have hsize := h.size_le
  rcases fits_of_capacityFor hroom with hzero | hfits
  · exact absurd hzero (Nat.ne_of_gt hmade.capacity_pos)
  · simp only [Buffer.append, size, Array.size_push, Buffer.withRoom] at *
    omega

theorem Provided.split (h : b.Provided) {epoch : Int} {part : Split k}
    (hsplit : b.split epoch memory = .ok part) : part.fresh.Provided := by
  unfold Buffer.split at hsplit
  by_cases hempty : b.isEmpty
  · rw [if_pos hempty] at hsplit
    cases hsplit
    rw [moveTo, if_pos hempty]
    exact ⟨h.usual_le, h.capacity_pos, h.le_limit, h.le_memory, h.size_le⟩
  · rw [if_neg hempty] at hsplit
    cases hfresh : ofKind k b.limit epoch memory with
    | error e =>
      rw [hfresh] at hsplit
      cases hsplit
    | ok fresh =>
      rw [hfresh] at hsplit
      cases hsplit
      exact ofKind_provided hfresh

/-- A buffer is full, and twice its capacity is more than the limit or the memory allow. -/
def Exhausted (b : Buffer k) (memory : Nat) : Prop :=
  b.size = b.capacity ∧
    ¬ (2 * b.capacity ≤ b.limit ∧ 2 * b.capacity * k.recordSize ≤ min memory maxReservation)

instance : Decidable (b.Exhausted memory) :=
  inferInstanceAs (Decidable (_ ∧ _))

theorem Provided.isOk_capacityFor_iff (h : b.Provided) :
    (b.capacityFor 1 memory).isOk ↔ ¬ b.Exhausted memory := by
  have hcount := two_mul_lt_maxCount h.le_memory
  have hsize := h.size_le
  have hdemand : min (b.size + 1) maxCount = b.size + 1 := by omega
  simp only [Buffer.capacityFor, hdemand, Exhausted]
  by_cases hroom : b.size + 1 ≤ b.capacity
  · rw [if_pos hroom]
    exact ⟨fun _ hfull => by omega, fun _ => rfl⟩
  -- one more than a full buffer holds is reached by doubling once
  · have hfull : b.size = b.capacity := by omega
    have hdouble : min (2 * b.capacity) maxCount = 2 * b.capacity := by omega
    rw [if_neg hroom, hfull, doubledTo_succ h.capacity_pos, hdouble, grant]
    split <;> simp_all [Except.isOk, Except.toBool]

/-- A buffer that is exhausted says what it would have to grow to. -/
theorem Provided.capacityFor_of_exhausted (h : b.Provided) (hfull : b.Exhausted memory) :
    b.capacityFor 1 memory = .error ⟨k, b.capacity, 2 * b.capacity⟩ := by
  have hcount := two_mul_lt_maxCount h.le_memory
  have hdemand : min (b.size + 1) maxCount = b.capacity + 1 := by
    have := hfull.1
    omega
  have hdouble : min (2 * b.capacity) maxCount = 2 * b.capacity := by omega
  simp only [Buffer.capacityFor, hdemand]
  rw [if_neg (by omega), doubledTo_succ h.capacity_pos, hdouble, grant, if_neg hfull.2]

/-- An empty buffer takes as many events as the limit allows, if these are no more than usual. -/
theorem Provided.capacityFor_of_isEmpty (h : b.Provided) (hempty : b.isEmpty)
    (hmore : more ≤ k.defaultCapacity) : b.capacityFor more memory =
      if more ≤ b.limit then .ok b.capacity else .error ⟨k, b.limit, doubledTo more b.limit⟩ := by
  have hsize : b.size = 0 := Array.size_eq_zero_iff.2 (Array.isEmpty_iff.1 hempty)
  have husual := h.usual_le
  have hlimit := h.le_limit
  have hdefault := k.defaultCapacity_le
  have hdemand : min (b.size + more) maxCount = more := by
    unfold maxCount
    omega
  simp only [Buffer.capacityFor, hdemand]
  by_cases hfits : more ≤ b.limit
  · rw [if_pos hfits, if_pos (by omega)]
  · have hcapacity : b.capacity = b.limit := by omega
    have hreached : more ≤ doubledTo more b.limit := le_doubledTo (hcapacity ▸ h.capacity_pos)
    have hbound := doubledTo_lt (Nat.lt_of_not_le hfits)
    have hcounted : min (doubledTo more b.limit) maxCount = doubledTo more b.limit := by
      unfold maxCount
      omega
    rw [if_neg hfits, if_neg (by omega), hcapacity, hcounted, grant, if_neg (by omega)]

end Buffer

/-! ## Steps and runs -/

namespace Decoder

variable {dev : Device}

/-- What room there is for more events only depends on their buffer and on the memory. -/
theorem capacityFor_congr {d d' : Decoder dev} {k : EventKind}
    (hbuffer : d'.buffer k = d.buffer k) (hmemory : d'.collector.memory = d.collector.memory)
    (more : Nat) : d'.collector.capacityFor k more = d.collector.capacityFor k more := by
  change (d'.buffer k).capacityFor more d'.collector.memory = _
  rw [hbuffer, hmemory]
  rfl

/-- The buffer of a kind has no room for another event, and there is none to be had. -/
def Exhausted (d : Decoder dev) (k : EventKind) : Prop :=
  (d.buffer k).Exhausted d.collector.memory

instance {d : Decoder dev} {k : EventKind} : Decidable (d.Exhausted k) :=
  inferInstanceAs (Decidable (Buffer.Exhausted _ _))

theorem Exhausted.congr {d d' : Decoder dev} {k : EventKind} (h : d.Exhausted k)
    (hbuffer : d'.buffer k = d.buffer k) (hmemory : d'.collector.memory = d.collector.memory) :
    d'.Exhausted k := by
  rw [Exhausted, hbuffer, hmemory]
  exact h

theorem settled_of_error {dev : Device} {a : Applied dev} {e : GrowthError}
    (h : a.result = .error e) : settled a = { decoder := a.decoder, result := .error e } := by
  unfold settled
  rw [h]
  rfl

/-- A property of decoders that no step breaks: codes do not, and taking the events out does not. -/
structure KeptBySteps (P : Decoder dev → Prop) : Prop extends KeptByCodes P where
  takeOut : ∀ (d : Decoder dev) (forced : Option Forced) (sealing : Sealing)
    (collector : Collector), d.collector.takeOut forced = .ok (sealing, collector) → P d →
      P { d with collector }

namespace KeptBySteps

variable {P : Decoder dev → Prop}

theorem settled (h : KeptBySteps P) {a : Applied dev} (ha : P a.decoder) :
    P (Decoder.settled a).decoder := by
  unfold Decoder.settled
  cases a.result with
  | error e => exact ha
  | ok forced =>
    simp only [Except.bind]
    cases a.decoder.collector.settlement forced with
    | quiet hnone _ hs =>
      subst hnone
      rw [hs]
      exact ha
    | failed _ hs =>
      rw [hs]
      exact ha
    | @sealed sealing _ ht hs =>
      have hout := h.takeOut a.decoder forced _ _ ht ha
      simp only [hs, Except.map, Option.bind_some]
      cases sealing.fault? with
      | some => exact hout
      | none =>
        cases forced with
        | none => exact hout
        | some => exact h.withDevice _ _ hout

theorem make (h : KeptBySteps P) {d : Decoder dev} (hd : P d) (m : Move) : P (d.make m).decoder := by
  cases m with
  | unit unit => exact h.settled (h.toKeptByCodes.applyUnit hd unit)
  | rest =>
    simp only [Decoder.make, settleRest]
    by_cases hpending : d.pending = 0
    · rw [if_pos hpending]
      exact hd
    · rw [if_neg hpending]
      cases htaken : d.collector.takeOut none with
      | error e => exact hd
      | ok r => exact h.takeOut d none r.1 r.2 htaken hd

theorem run (h : KeptBySteps P) {b : Ledger dev} (hb : P b.decoder) (moves : List Move) :
    P (b.run moves).decoder :=
  Ledger.decoder_run (P := P) (fun _ m hd => h.make hd m) hb moves

end KeptBySteps

/-- What holds of every buffer lasts if neither making room nor adding nor sealing breaks it. -/
theorem keptBySteps_buffers {P : (k : EventKind) → Buffer k → Prop}
    (hroom : ∀ k (b : Buffer k) more memory capacity, b.capacityFor more memory = .ok capacity → P k b →
      P k (b.withRoom capacity))
    (happend : ∀ k (b : Buffer k) memory capacity event, b.capacityFor 1 memory = .ok capacity →
      P k b → P k (b.append capacity event))
    (hsplit : ∀ k (b : Buffer k) epoch memory part, b.split epoch memory = .ok part → P k b →
      P k part.fresh) :
    KeptBySteps fun d : Decoder dev => ∀ k, P k (d.buffer k) where
  withClock _ _ h := h
  withDevice _ _ h := h
  append d k capacity event hok h l := by
    by_cases hl : l = k
    · subst hl
      rw [buffer_append_self]
      exact happend l _ _ capacity event hok (h l)
    · rw [buffer_append_of_ne _ _ _ hl]
      exact h l
  withRoom d k more capacity hok h l := by
    by_cases hl : l = k
    · subst hl
      rw [buffer_withRoom_self]
      exact hroom l _ more _ capacity hok (h l)
    · rw [buffer_withRoom_of_ne _ _ hl]
      exact h l
  takeOut d forced sealing collector htaken h l := by
    unfold Collector.takeOut at htaken
    obtain ⟨⟨data, batch⟩, hpack, htaken⟩ := exists_of_bind_eq_ok htaken
    cases htaken
    unfold Batch.pack at hpack
    obtain ⟨parts, hparts, hpack⟩ := exists_of_bind_eq_ok hpack
    cases hpack
    change P l ((PerKind.map (fun _ part => part.fresh) parts).get l)
    rw [PerKind.get_map]
    exact hsplit l _ _ _ _ (PerKind.mapExcept_ok hparts l) (h l)

/-- Every buffer is provided, under a common limit. -/
def Supplied (limit : Nat) (d : Decoder dev) : Prop :=
  ∀ k, (d.buffer k).Provided ∧ (d.buffer k).limit = limit

theorem keptBySteps_supplied (limit : Nat) : KeptBySteps fun d : Decoder dev => d.Supplied limit := by
  refine keptBySteps_buffers (P := fun _ b => b.Provided ∧ b.limit = limit) ?_ ?_ ?_
  · intro k b more memory capacity hok h
    exact ⟨h.1.withRoom hok, h.2⟩
  · intro k b memory capacity event hok h
    exact ⟨h.1.append hok event, h.2⟩
  · intro k b epoch memory part hok h
    exact ⟨h.1.split hok, (Buffer.split_ok hok).2.2.2.trans h.2⟩

theorem Supplied.limit_pos {limit : Nat} {d : Decoder dev} (h : d.Supplied limit) : 0 < limit := by
  obtain ⟨hprovided, rfl⟩ := h .special
  exact Nat.lt_of_lt_of_le hprovided.capacity_pos hprovided.le_limit

theorem Supplied.replaceable {limit : Nat} {d : Decoder dev} (h : d.Supplied limit)
    (hmemory : SparesNew d.collector.memory limit) : d.collector.Replaceable := by
  intro k
  rw [show (d.collector.batch.get k).limit = limit from (h k).2]
  exact ⟨h.limit_pos, hmemory⟩

theorem supplied_start {settings : Settings} {d : Decoder dev}
    (h : Decoder.start dev settings = .ok d) : d.Supplied settings.capacityLimit := by
  refine fun k => ⟨?_, (start_ok h).limit_eq k⟩
  unfold Decoder.start Collector.start at h
  obtain ⟨collector, hcollector, h⟩ := exists_of_bind_eq_ok h
  obtain ⟨batch, hbatch, hcollector⟩ := exists_of_bind_eq_ok hcollector
  cases hcollector
  cases h
  exact Buffer.ofKind_provided (Batch.ofKind_of_start hbatch k)

def Idle {dev : Device} (d : Decoder dev) : Prop :=
  ∀ k, (d.buffer k).isEmpty

theorem pending_eq_zero_iff {dev : Device} {d : Decoder dev} : d.pending = 0 ↔ d.Idle := by
  have hempty (k : EventKind) : (d.buffer k).isEmpty ↔ (d.buffer k).size = 0 :=
    Array.isEmpty_iff.trans Array.size_eq_zero_iff.symm
  have hsum : d.pending = (d.buffer .special).size + ((d.buffer .polarity).size +
      ((d.buffer .frame).size + (d.buffer .imu6).size)) := rfl
  refine ⟨fun h k => (hempty k).2 ?_, fun h => ?_⟩
  · cases k <;> omega
  · have hnone (k : EventKind) := (hempty k).1 (h k)
    rw [hsum, hnone, hnone, hnone, hnone]

theorem idle_settleRest {dev : Device} {d : Decoder dev} (h : d.collector.Replaceable) :
    d.settleRest.decoder.Idle := by
  unfold settleRest
  by_cases hpending : d.pending = 0
  · rw [if_pos hpending]
    exact pending_eq_zero_iff.1 hpending
  · rw [if_neg hpending]
    have hok := h.isOk_takeOut none
    cases htaken : d.collector.takeOut none with
    | error e =>
      rw [htaken] at hok
      cases hok
    | ok r => exact (Collector.takeOut_ok htaken).1.fresh_isEmpty

end Decoder

theorem Ledger.supplied_of_session {dev : Device} {settings : Settings} {d : Decoder dev}
    {b : Ledger dev} {calls : List Call} {steps : List Step}
    {results : List (Except DecodeError Unit)} (hstart : Decoder.start dev settings = .ok d)
    (h : Trace (session Ledger.call calls { decoder := d }) steps (b, results)) :
    b.decoder.Supplied settings.capacityLimit := by
  obtain ⟨moves, hcourse, -⟩ := trace_session h
  rw [hcourse.end_eq]
  exact (Decoder.keptBySteps_supplied _).run (b := { decoder := d }) (Decoder.supplied_start hstart) moves

theorem Ledger.memory_of_session {dev : Device} {settings : Settings} {d : Decoder dev}
    {b : Ledger dev} {calls : List Call} {steps : List Step}
    {results : List (Except DecodeError Unit)} (hstart : Decoder.start dev settings = .ok d)
    (h : Trace (session Ledger.call calls { decoder := d }) steps (b, results)) :
    b.decoder.collector.memory = settings.memory.later := by
  obtain ⟨moves, hcourse, -⟩ := trace_session h
  rw [hcourse.end_eq]
  exact (memory_run { decoder := d } moves).trans (Decoder.start_ok hstart).memory_eq

/-- Whatever calls came before, the buffers can be replaced, if there is always memory for that. -/
theorem Ledger.replaceable_of_session {dev : Device} {settings : Settings} {d : Decoder dev}
    {b : Ledger dev} {calls : List Call} {steps : List Step}
    {results : List (Except DecodeError Unit)} (hstart : Decoder.start dev settings = .ok d)
    (hmemory : settings.Spares)
    (h : Trace (session Ledger.call calls { decoder := d }) steps (b, results)) :
    b.decoder.collector.Replaceable := by
  refine (supplied_of_session hstart h).replaceable ?_
  rw [memory_of_session hstart h]
  exact hmemory

end EventCamera
