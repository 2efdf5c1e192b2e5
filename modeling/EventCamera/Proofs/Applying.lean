import EventCamera.Proofs.Books

/-! # What codes add to the buffers

A code adds the events that it asks for, or none if it fails. A pixel group makes room for all of
its pixels first, and so adds all of them or none. -/

namespace EventCamera

theorem le_doubledTo {demand capacity : Nat} (h : 0 < capacity) :
    demand ≤ doubledTo demand capacity := by
  fun_induction doubledTo demand capacity with
  | case1 capacity _ ih => exact ih (by omega)
  | case2 capacity hstop => omega

theorem doubledTo_zero (demand : Nat) : doubledTo demand 0 = 0 := by
  rw [doubledTo, if_neg (by simp)]

namespace Buffer

variable {k : EventKind}

/-- There is room for further events. A capacity of zero is never found too small, since doubling
it leads nowhere. -/
def Fits (b : Buffer k) (more : Nat) : Prop :=
  b.capacity = 0 ∨ min (b.size + more) maxCount ≤ b.capacity

theorem Fits.capacityFor {b : Buffer k} {more : Nat} (h : b.Fits more) (memory : Nat) :
    b.capacityFor more memory = .ok b.capacity := by
  unfold Buffer.capacityFor
  by_cases hle : min (b.size + more) maxCount ≤ b.capacity
  · exact if_pos hle
  · have hz : b.capacity = 0 := h.resolve_right hle
    simp only [hz] at hle ⊢
    rw [if_neg hle, doubledTo_zero, Nat.zero_min]
    rw [grant, if_pos ⟨Nat.zero_le _, by omega⟩]

theorem fits_of_capacityFor {b : Buffer k} {more memory capacity : Nat}
    (h : b.capacityFor more memory = .ok capacity) : (b.withRoom capacity).Fits more := by
  unfold Buffer.capacityFor at h
  by_cases hle : min (b.size + more) maxCount ≤ b.capacity
  · rw [if_pos hle] at h
    cases h
    exact .inr hle
  · rw [if_neg hle] at h
    unfold grant at h
    split at h
    · cases h
      by_cases hz : b.capacity = 0
      · left
        simp [withRoom, hz, doubledTo_zero]
      · right
        have := @le_doubledTo (min (b.size + more) maxCount) b.capacity (by omega)
        simp only [withRoom, size] at *
        omega
    · cases h

theorem Fits.mono {b : Buffer k} {more fewer : Nat} (h : b.Fits more) (hle : fewer ≤ more) :
    b.Fits fewer := by
  rcases h with h | h
  · exact .inl h
  · right
    omega

theorem Fits.append {b : Buffer k} {more : Nat} (h : b.Fits (more + 1)) (event : k.Record) :
    (b.append b.capacity event).Fits more := by
  rcases h with h | h
  · exact .inl h
  · right
    simp only [Buffer.append, size, Array.size_push] at *
    omega

end Buffer

namespace Decoder

variable {dev : Device}

/-- Something was applied that adds these events, or none if it failed. The epochs of the buffers
stay. -/
structure Adds (d : Decoder dev) (records : (k : EventKind) → List k.Record) (a : Applied dev) :
    Prop where
  epoch_eq : ∀ k, (a.decoder.buffer k).epoch = (d.buffer k).epoch
  of_ok : a.result.isOk → ∀ k,
    (a.decoder.buffer k).events.toList = (d.buffer k).events.toList ++ records k
  of_error : ¬ a.result.isOk → ∀ k,
    (a.decoder.buffer k).events.toList = (d.buffer k).events.toList

theorem Adds.nothing {d : Decoder dev} {a : Applied dev}
    (h : ∀ k, a.decoder.buffer k = d.buffer k) : d.Adds (fun _ => []) a := by
  refine ⟨fun k => by rw [h], fun _ k => ?_, fun _ k => by rw [h]⟩
  rw [h, List.append_nil]

theorem Adds.of_buffers {d d' : Decoder dev} {records : (k : EventKind) → List k.Record}
    {a : Applied dev} (hadds : d'.Adds records a) (h : ∀ k, d'.buffer k = d.buffer k) :
    d.Adds records a := by
  refine ⟨fun k => ?_, fun hok k => ?_, fun hfail k => ?_⟩
  · rw [hadds.epoch_eq, h]
  · rw [hadds.of_ok hok, h]
  · rw [hadds.of_error hfail, h]

/-- Two things that do not fail add the events of both. -/
theorem Adds.andThen {d : Decoder dev} {records later : (k : EventKind) → List k.Record}
    {a : Applied dev} {f : Decoder dev → Applied dev} {forced : Option Forced}
    (h : d.Adds records a) (hresult : a.result = .ok forced)
    (hf : a.decoder.Adds later (f a.decoder)) (hok : (f a.decoder).result.isOk) :
    (Applied.andThen a f).result.isOk ∧
      d.Adds (fun k => records k ++ later k) (Applied.andThen a f) := by
  simp only [Applied.andThen, hresult]
  cases hr : (f a.decoder).result with
  | error e =>
    rw [hr] at hok
    cases hok
  | ok forced' =>
    refine ⟨rfl, fun k => ?_, fun _ k => ?_, fun h => absurd rfl h⟩
    · exact (hf.epoch_eq k).trans (h.epoch_eq k)
    · rw [hf.of_ok hok, h.of_ok (by rw [hresult]; rfl), List.append_assoc]

theorem buffer_append_self (d : Decoder dev) (k : EventKind) (capacity : Nat) (event : k.Record) :
    (d.withCollector (·.append k capacity event)).buffer k =
      (d.buffer k).append capacity event :=
  PerKind.get_modify_self ..

theorem buffer_append_of_ne (d : Decoder dev) {k l : EventKind} (capacity : Nat)
    (event : k.Record) (h : l ≠ k) :
    (d.withCollector (·.append k capacity event)).buffer l = d.buffer l :=
  PerKind.get_modify_of_ne _ _ h

theorem push_adds (d : Decoder dev) (k : EventKind) (event : k.Record) (notices : List Notice)
    (forced : Option Forced) : d.Adds (only k [event]) (d.push k event notices forced) := by
  unfold push
  cases d.collector.capacityFor k 1 with
  | error e =>
    exact ⟨fun _ => rfl, nofun, fun _ _ => rfl⟩
  | ok capacity =>
    refine ⟨fun l => ?_, fun _ l => ?_, fun h => absurd rfl h⟩
    · by_cases hl : l = k
      · subst hl
        rw [buffer_append_self]
        rfl
      · rw [buffer_append_of_ne _ _ _ hl]
    · by_cases hl : l = k
      · subst hl
        rw [buffer_append_self, only_self]
        exact Array.toList_push
      · rw [buffer_append_of_ne _ _ _ hl, only_of_ne _ (Ne.symm hl), List.append_nil]

theorem buffer_withRoom_self (d : Decoder dev) (k : EventKind) (capacity : Nat) :
    (d.withCollector (·.withRoom k capacity)).buffer k = (d.buffer k).withRoom capacity :=
  PerKind.get_modify_self ..

theorem buffer_withRoom_of_ne (d : Decoder dev) {k l : EventKind} (capacity : Nat)
    (h : l ≠ k) : (d.withCollector (·.withRoom k capacity)).buffer l = d.buffer l :=
  PerKind.get_modify_of_ne _ _ h

/-! ## Pixel groups -/

theorem pixelsAt_append (d : Decoder dev) (x : UInt16) (rows rows' : List UInt16) (on : Bool) :
    d.pixelsAt x (rows ++ rows') on = d.pixelsAt x rows on ++ d.pixelsAt x rows' on := by
  simp only [pixelsAt, List.filter_append, List.map_append]

theorem pixelsAt_congr {d d' : Decoder dev} (h : d'.clock = d.clock) (x : UInt16)
    (rows : List UInt16) (on : Bool) : d'.pixelsAt x rows on = d.pixelsAt x rows on := by
  simp only [pixelsAt, h]

theorem pushPixel_adds (d : Decoder dev) (x y : UInt16) (on : Bool) :
    d.Adds (only .polarity (d.pixelsAt x [y] on)) (d.pushPixel x y on) := by
  unfold pushPixel pixelsAt
  by_cases hin : dev.geometry.contains x y
  · simp only [if_pos hin, List.filter_cons_of_pos hin, List.filter_nil, List.map_cons,
      List.map_nil]
    exact d.push_adds ..
  · simp only [if_neg hin, List.filter_cons_of_neg hin, List.filter_nil, List.map_nil]
    rw [only_nil]
    exact .nothing fun _ => rfl

theorem clock_pushPixel (d : Decoder dev) (x y : UInt16) (on : Bool) :
    (d.pushPixel x y on).decoder.clock = d.clock := by
  unfold pushPixel push
  split
  · split <;> rfl
  · rfl

theorem pushPixel_of_fits {d : Decoder dev} {more : Nat} (x y : UInt16) (on : Bool)
    (h : (d.buffer .polarity).Fits (more + 1)) :
    (d.pushPixel x y on).result = .ok none ∧
      ((d.pushPixel x y on).decoder.buffer .polarity).Fits more := by
  have hcap : d.collector.capacityFor .polarity 1 = .ok (d.buffer .polarity).capacity :=
    (h.mono (by omega)).capacityFor _
  unfold pushPixel push
  by_cases hin : dev.geometry.contains x y
  · simp only [if_pos hin, hcap]
    refine ⟨trivial, ?_⟩
    rw [buffer_append_self]
    exact h.append _
  · simp only [if_neg hin]
    exact ⟨trivial, h.mono (by omega)⟩

theorem forEach_pushPixel_adds {rows : List UInt16} {d : Decoder dev} (x : UInt16) (on : Bool)
    (h : (d.buffer .polarity).Fits rows.length) :
    (forEach (fun y d => d.pushPixel x y on) rows d).result.isOk ∧
      d.Adds (only .polarity (d.pixelsAt x rows on))
        (forEach (fun y d => d.pushPixel x y on) rows d) := by
  induction rows generalizing d with
  | nil =>
    refine ⟨rfl, ?_⟩
    change d.Adds (only .polarity []) _
    rw [only_nil]
    exact .nothing fun _ => rfl
  | cons y rows ih =>
    obtain ⟨hresult, hfits⟩ := pushPixel_of_fits x y on h
    obtain ⟨hok, hadds⟩ := ih hfits
    rw [pixelsAt_congr (clock_pushPixel ..)] at hadds
    have hone := d.pushPixel_adds x y on
    rw [← List.singleton_append, pixelsAt_append, only_append]
    exact Adds.andThen hone hresult hadds hok

theorem length_rowsOf_le (base : UInt16) (mask : UInt8) : (rowsOf base mask).length ≤ 8 := by
  unfold rowsOf
  rw [List.length_map]
  exact Nat.le_trans (List.length_filter_le _ _) (Nat.le_of_eq List.length_range)

/-- A pixel group is added as a whole or not at all. -/
theorem pushGroup_adds (d : Decoder dev) (x base : UInt16) (mask : UInt8) (on : Bool) :
    d.Adds (only .polarity (d.pixelsAt x (rowsOf base mask) on)) (d.pushGroup x base mask on) := by
  unfold pushGroup
  cases hcap : d.collector.capacityFor .polarity 8 with
  | error e => exact ⟨fun _ => rfl, nofun, fun _ _ => rfl⟩
  | ok capacity =>
    have hroom : ((d.withCollector (·.withRoom .polarity capacity)).buffer .polarity).Fits
        (rowsOf base mask).length := by
      rw [buffer_withRoom_self]
      exact (Buffer.fits_of_capacityFor hcap).mono (length_rowsOf_le base mask)
    obtain ⟨hok, hadds⟩ := forEach_pushPixel_adds x on hroom
    have hevents (k : EventKind) :
        ((d.withCollector (·.withRoom .polarity capacity)).buffer k).events = (d.buffer k).events ∧
        ((d.withCollector (·.withRoom .polarity capacity)).buffer k).epoch =
          (d.buffer k).epoch := by
      by_cases hk : k = .polarity
      · subst hk
        rw [buffer_withRoom_self]
        exact ⟨rfl, rfl⟩
      · rw [buffer_withRoom_of_ne _ _ hk]
        exact ⟨rfl, rfl⟩
    refine ⟨fun k => ?_, fun _ k => ?_, fun hfail => absurd hok hfail⟩
    · exact (hadds.epoch_eq k).trans (hevents k).2
    · rw [hadds.of_ok hok, (hevents k).1]
      rfl

/-! ## Codes -/

theorem applyComposite_adds (d : Decoder dev) (kind : CompositeKind) (step : CompositeStep) :
    d.Adds (d.asked (.composite kind step)) (d.applyComposite kind step) := by
  simp only [applyComposite, asked]
  cases (dev.compose d.device kind step d.clock.current).outcome with
  | complete event => exact (push_adds { d with device := _ } ..).of_buffers fun _ => rfl
  | mismatch | pending | ignored => exact .nothing fun _ => rfl

/-- A code adds what it asks for, or nothing if it fails. -/
theorem apply_adds (code : Code) (d : Decoder dev) : d.Adds (d.asked code) (apply code d) := by
  cases code with
  | tick | reset => exact .nothing fun _ => rfl
  | wrap multiplier =>
    simp only [apply, asked]
    split
    · exact (push_adds (d.withClock (·.wrap multiplier)) ..).of_buffers fun _ => rfl
    · exact .nothing fun _ => rfl
  | pixel x y on => exact d.pushPixel_adds x y on
  | group x base mask on => exact d.pushGroup_adds x base mask on
  | special kind data => exact d.push_adds ..
  | composite kind step => exact d.applyComposite_adds kind step

theorem stamped_forEach_apply (past : List (List UInt8)) (codes : List Code) (d : Decoder dev)
    (k : EventKind) :
    ((forEach apply codes d).decoder.buffer k).stamped =
      (d.buffer k).stamped ++ (additions past codes d k).map Added.stamped := by
  induction codes generalizing d with
  | nil => exact (List.append_nil _).symm
  | cons code codes ih =>
    have hadds := apply_adds code d
    simp only [forEach, Applied.andThen, additions]
    cases hr : (apply code d).result with
    | error e =>
      simp only [Buffer.stamped, hadds.epoch_eq,
        hadds.of_error (by rw [hr]; exact Bool.false_ne_true), List.map_nil, List.append_nil]
    | ok forced =>
      rw [ih]
      simp only [Buffer.stamped, hadds.epoch_eq, hadds.of_ok (by rw [hr]; rfl), List.map_append,
        List.map_map, List.append_assoc]
      rfl

end Decoder

/-- A unit puts what it adds behind what was in the buffers. -/
theorem Ledger.stamped_applyUnit {dev : Device} (b : Ledger dev) (unit : List UInt8) (k : EventKind) :
    ((b.decoder.applyUnit unit).decoder.buffer k).stamped =
      (b.decoder.buffer k).stamped ++ (b.addedBy unit k).map Added.stamped :=
  Decoder.stamped_forEach_apply (b.units ++ [unit]) _ _ k

namespace Decoder

variable {dev : Device}

/-! ## What codes keep -/

/-- A property of decoders that no code breaks: neither the time nor the device matters to it, and
additions for which there is room leave it alone. -/
structure KeptByCodes (P : Decoder dev → Prop) : Prop where
  withClock : ∀ d f, P d → P (d.withClock f)
  withDevice : ∀ d device, P d → P { d with device }
  append : ∀ d k capacity event, d.collector.capacityFor k 1 = .ok capacity → P d →
    P (d.withCollector (·.append k capacity event))
  withRoom : ∀ d k more capacity, d.collector.capacityFor k more = .ok capacity → P d →
    P (d.withCollector (·.withRoom k capacity))

namespace KeptByCodes

variable {P : Decoder dev → Prop} {d : Decoder dev}

theorem push (h : KeptByCodes P) (hd : P d) (k : EventKind) (event : k.Record) (notices : List Notice)
    (forced : Option Forced) : P (d.push k event notices forced).decoder := by
  unfold Decoder.push
  split
  · exact h.append d k _ event ‹_› hd
  · exact hd

theorem pushPixel (h : KeptByCodes P) (hd : P d) (x y : UInt16) (on : Bool) :
    P (d.pushPixel x y on).decoder := by
  unfold Decoder.pushPixel
  split
  · exact h.push hd ..
  · exact hd

theorem forEach {α : Type} {f : α → Decoder dev → Applied dev} {as : List α}
    (hf : ∀ a ∈ as, ∀ d, P d → P (f a d).decoder) (hd : P d) :
    P (Decoder.forEach f as d).decoder := by
  induction as generalizing d with
  | nil => exact hd
  | cons a as ih =>
    obtain ⟨hfirst, hrest⟩ := List.forall_mem_cons.1 hf
    unfold Decoder.forEach Applied.andThen
    split
    · exact hfirst d hd
    · exact ih hrest (hfirst d hd)

theorem pushGroup (h : KeptByCodes P) (hd : P d) (x base : UInt16) (mask : UInt8) (on : Bool) :
    P (d.pushGroup x base mask on).decoder := by
  unfold Decoder.pushGroup
  split
  · have hroom := h.withRoom d .polarity 8 _ ‹_› hd
    exact forEach (P := P) (fun y _ d hd => h.pushPixel hd x y on) hroom
  · exact hd

theorem applyComposite (h : KeptByCodes P) (hd : P d) (kind : CompositeKind) (step : CompositeStep) :
    P (d.applyComposite kind step).decoder := by
  have hdevice := h.withDevice d (dev.compose d.device kind step d.clock.current).state hd
  simp only [Decoder.applyComposite]
  cases (dev.compose d.device kind step d.clock.current).outcome with
  | complete event => exact h.push hdevice ..
  | mismatch | pending | ignored => exact hdevice

theorem apply (h : KeptByCodes P) (code : Code) (d : Decoder dev) (hd : P d) :
    P (Decoder.apply code d).decoder := by
  cases code with
  | tick | reset => exact h.withClock _ _ (h.withClock _ _ hd)
  | wrap multiplier =>
    have hmoved := h.withClock d (·.wrap multiplier) hd
    simp only [Decoder.apply]
    split
    · exact h.push hmoved ..
    · exact h.withClock _ _ hmoved
  | pixel x y on => exact h.pushPixel hd x y on
  | group x base mask on => exact h.pushGroup hd x base mask on
  | special kind data => exact h.push hd ..
  | composite kind step => exact h.applyComposite hd kind step

theorem applyUnit (h : KeptByCodes P) (hd : P d) (unit : List UInt8) : P (d.applyUnit unit).decoder :=
  forEach (fun code _ d hd => h.apply code d hd) (h.withDevice d _ hd)

end KeptByCodes

theorem keptByCodes_interval (interval : Int) :
    KeptByCodes fun d : Decoder dev => d.collector.interval = interval :=
  ⟨fun _ _ h => h, fun _ _ h => h, fun _ _ _ _ _ h => h, fun _ _ _ _ _ h => h⟩

theorem keptByCodes_memory (memory : Nat) :
    KeptByCodes fun d : Decoder dev => d.collector.memory = memory :=
  ⟨fun _ _ h => h, fun _ _ h => h, fun _ _ _ _ _ h => h, fun _ _ _ _ _ h => h⟩

theorem keptByCodes_limit (limit : EventKind → Nat) :
    KeptByCodes fun d : Decoder dev => ∀ k, (d.buffer k).limit = limit k := by
  refine ⟨fun _ _ h => h, fun _ _ h => h, fun d k capacity event _ h l => ?_,
    fun d k _ capacity _ h l => ?_⟩
  · by_cases hl : l = k
    · subst hl
      rw [buffer_append_self]
      exact h l
    · rw [buffer_append_of_ne _ _ _ hl, h]
  · by_cases hl : l = k
    · subst hl
      rw [buffer_withRoom_self]
      exact h l
    · rw [buffer_withRoom_of_ne _ _ hl, h]

end Decoder

end EventCamera
