import EventCamera.Proofs.Growth
import EventCamera.Proofs.Usability

/-! # A pixel group and its pixels

A group makes room for eight events before it adds its pixels, while pixels that come one by one make
room one by one. Either way the same events are added, and a group that finds no room adds none. -/

namespace EventCamera

/-! ## Room for one event after the other -/

theorem doubledTo_doubledTo {demand greater : Nat} (h : demand ≤ greater) (capacity : Nat) :
    doubledTo greater (doubledTo demand capacity) = doubledTo greater capacity := by
  fun_induction doubledTo demand capacity with
  | case1 capacity hgrows ih =>
    rw [ih]
    conv_rhs => rw [doubledTo, if_pos ⟨hgrows.1, Nat.lt_of_lt_of_le hgrows.2 h⟩]
  | case2 capacity hstop => rfl

theorem doubledTo_mono {demand greater : Nat} (h : demand ≤ greater) (capacity : Nat) :
    doubledTo demand capacity ≤ doubledTo greater capacity := by
  rw [← doubledTo_doubledTo h]
  exact capacity_le_doubledTo ..

namespace Buffer

variable {k : EventKind} {b : Buffer k} {more fewer capacity memory : Nat}

theorem Allows.mono {limit : Nat} (h : Allows k limit memory more) (hle : fewer ≤ more) :
    Allows k limit memory fewer :=
  ⟨Nat.le_trans hle h.1, Nat.le_trans (Nat.mul_le_mul_right _ hle) h.2⟩

theorem isOk_capacityFor_iff_allows : (b.capacityFor more memory).isOk ↔
    min (b.size + more) maxCount ≤ b.capacity ∨ Allows k b.limit memory
      (min (doubledTo (min (b.size + more) maxCount) b.capacity) maxCount) := by
  unfold capacityFor
  by_cases hcovered : min (b.size + more) maxCount ≤ b.capacity
  · rw [if_pos hcovered]
    exact iff_of_true rfl (.inl hcovered)
  · rw [if_neg hcovered, isOk_grant_iff, or_iff_right hcovered]

theorem isOk_capacityFor_mono (h : (b.capacityFor more memory).isOk) (hle : fewer ≤ more) :
    (b.capacityFor fewer memory).isOk := by
  have hdemand : min (b.size + fewer) maxCount ≤ min (b.size + more) maxCount := by omega
  rcases isOk_capacityFor_iff_allows.1 h with hcovered | hallowed
  · exact isOk_capacityFor_iff_allows.2 (.inl (Nat.le_trans hdemand hcovered))
  · have hdoubled := doubledTo_mono hdemand b.capacity
    exact isOk_capacityFor_iff_allows.2 (.inr (hallowed.mono (by omega)))

/-- An event that finds room of its own takes one place of the room for several. -/
theorem isOk_capacityFor_append (h : (b.capacityFor (more + 1) memory).isOk)
    (hone : b.capacityFor 1 memory = .ok capacity) (event : k.Record) :
    ((b.append capacity event).capacityFor more memory).isOk := by
  have hsize : (b.append capacity event).size + more = b.size + (more + 1) := by
    simp only [append, size, Array.size_push]
    omega
  rw [isOk_capacityFor_iff_allows, hsize]
  change _ ≤ capacity ∨ Allows k b.limit memory (min (doubledTo _ capacity) maxCount)
  generalize hdemand : min (b.size + (more + 1)) maxCount = demand
  rw [isOk_capacityFor_iff_allows, hdemand] at h
  unfold capacityFor at hone
  by_cases hcovered : min (b.size + 1) maxCount ≤ b.capacity
  · rw [if_pos hcovered] at hone
    cases hone
    exact h
  · rw [if_neg hcovered, grant_eq] at hone
    split at hone
    · cases hone
      have hallowed := h.resolve_left (by omega)
      have hdemands : min (b.size + 1) maxCount ≤ demand := by omega
      rw [← doubledTo_doubledTo hdemands] at hallowed
      -- a capacity that was cut at the largest count covers every demand
      rcases Nat.le_total (doubledTo (min (b.size + 1) maxCount) b.capacity) maxCount with hle | hle
      · rw [Nat.min_eq_left hle]
        exact .inr hallowed
      · exact .inl (by omega)
    · cases hone

end Buffer

namespace Decoder

variable {dev : Device}

/-! ## The rows of a group -/

/-- The rows of a pixel group in ascending order, as far as there are such rows at all. -/
def exactRows (base : UInt16) (mask : UInt8) : List UInt16 :=
  ((List.range 8).filter mask.toNat.testBit).filterMap fun bit =>
    if base.toNat + bit ≤ 0xffff then some (.ofNat (base.toNat + bit)) else none

example : exactRows 65533 0xff = [65533, 65534, 65535] := by decide

/-- The codes of the single pixels of a group. -/
def singly (x base : UInt16) (mask : UInt8) (on : Bool) : List Code :=
  (exactRows base mask).map (.pixel x · on)

/-- No array has a pixel in the last row that there is. -/
theorem not_contains_lastRow (g : Geometry) (x : UInt16) : g.contains x 0xffff = false := by
  have hrow : ¬ (0xffff : UInt16) < g.height := by
    have := g.height.toNat_lt
    rw [UInt16.lt_iff_toNat_lt]
    change ¬ 65535 < g.height.toNat
    omega
  simp [Geometry.contains, hrow]

theorem filter_rowsOf (g : Geometry) (x base : UInt16) (mask : UInt8) :
    (rowsOf base mask).filter (g.contains x) = (exactRows base mask).filter (g.contains x) := by
  unfold rowsOf exactRows
  induction (List.range 8).filter mask.toNat.testBit with
  | nil => rfl
  | cons bit bits ih =>
    rw [List.map_cons, List.filterMap_cons]
    by_cases hrow : base.toNat + bit ≤ 0xffff
    · rw [if_pos hrow, rowAbove, Nat.min_eq_left hrow, List.filter_cons, List.filter_cons, ih]
    · have hlast : rowAbove base bit = 0xffff := by
        rw [rowAbove, Nat.min_eq_right (by omega)]
        rfl
      rw [if_neg hrow, hlast, List.filter_cons, not_contains_lastRow, ih]
      rfl

theorem pixelsAt_rowsOf (d : Decoder dev) (x base : UInt16) (mask : UInt8) (on : Bool) :
    d.pixelsAt x (rowsOf base mask) on = d.pixelsAt x (exactRows base mask) on := by
  rw [pixelsAt, filter_rowsOf, pixelsAt]

theorem length_exactRows_le (base : UInt16) (mask : UInt8) : (exactRows base mask).length ≤ 8 := by
  refine Nat.le_trans (List.length_filterMap_le ..) (Nat.le_trans (List.length_filter_le ..) ?_)
  rw [List.length_range]

/-! ## Pixels one by one -/

theorem apply_pixel_of_room {d : Decoder dev} {more : Nat} (x y : UInt16) (on : Bool)
    (h : (d.collector.capacityFor .polarity (more + 1)).isOk) :
    (apply (.pixel x y on) d).result = .ok none ∧
      ((apply (.pixel x y on) d).decoder.collector.capacityFor .polarity more).isOk := by
  simp only [apply, pushPixel]
  by_cases hin : dev.geometry.contains x y
  · obtain ⟨capacity, hone⟩ := exists_of_isOk (Buffer.isOk_capacityFor_mono h (Nat.le_add_left 1 more))
    have hcapacity : d.collector.capacityFor .polarity 1 = .ok capacity := hone
    simp only [if_pos hin, push, hcapacity]
    refine ⟨trivial, ?_⟩
    have hbuffer := buffer_append_self d .polarity capacity ⟨x, y, on, d.clock.current⟩
    change (((d.withCollector _).buffer .polarity).capacityFor more d.collector.memory).isOk
    rw [hbuffer]
    exact Buffer.isOk_capacityFor_append h hone _
  · simp only [if_neg hin]
    exact ⟨trivial, Buffer.isOk_capacityFor_mono h (Nat.le_succ more)⟩

/-- Pixels for which there is room together are all added, one after the other. -/
theorem forEach_pixels_adds {rows : List UInt16} {d : Decoder dev} (x : UInt16) (on : Bool)
    (h : (d.collector.capacityFor .polarity rows.length).isOk) :
    (forEach apply (rows.map (.pixel x · on)) d).result.isOk ∧
      d.Adds (only .polarity (d.pixelsAt x rows on))
        (forEach apply (rows.map (.pixel x · on)) d) := by
  induction rows generalizing d with
  | nil =>
    refine ⟨rfl, ?_⟩
    change d.Adds (only .polarity []) _
    rw [only_nil]
    exact .nothing fun _ => rfl
  | cons y rows ih =>
    obtain ⟨hresult, hroom⟩ := apply_pixel_of_room x y on h
    obtain ⟨hok, hadds⟩ := ih hroom
    have hclock : (apply (.pixel x y on) d).decoder.clock = d.clock := clock_pushPixel d x y on
    rw [pixelsAt_congr hclock] at hadds
    have hone := d.pushPixel_adds x y on
    rw [← List.singleton_append, pixelsAt_append, only_append]
    exact Adds.andThen hone hresult hadds hok

/-! ## The group -/

/-- What applying a group comes to. If there is room for eight events, its pixels are added that are in
the array, which are those that come of applying them one by one; if not, nothing happens. -/
structure GroupApplied (d : Decoder dev) (x base : UInt16) (mask : UInt8) (on : Bool) : Prop where
  isOk_iff : (apply (.group x base mask on) d).result.isOk ↔
    (d.collector.capacityFor .polarity 8).isOk
  singly_isOk : (apply (.group x base mask on) d).result.isOk →
    (forEach apply (singly x base mask on) d).result.isOk
  events_eq : (apply (.group x base mask on) d).result.isOk → ∀ k,
    ((apply (.group x base mask on) d).decoder.buffer k).events =
      ((forEach apply (singly x base mask on) d).decoder.buffer k).events
  inArray : (apply (.group x base mask on) d).result.isOk → ∃ pixels : List PolarityEvent,
    ((apply (.group x base mask on) d).decoder.buffer .polarity).events.toList =
        (d.buffer .polarity).events.toList ++ pixels ∧
      ∀ e ∈ pixels, dev.geometry.contains e.x e.y
  unchanged : ¬ (apply (.group x base mask on) d).result.isOk →
    (apply (.group x base mask on) d).decoder = d

/-- A pixel group is applied as its pixels one after the other, all of them or none. -/
theorem apply_group (d : Decoder dev) (x base : UInt16) (mask : UInt8) (on : Bool) :
    d.GroupApplied x base mask on := by
  have hadds := d.pushGroup_adds x base mask on
  rw [pixelsAt_rowsOf] at hadds
  cases hcapacity : d.collector.capacityFor .polarity 8 with
  | error e =>
    have hfailed : (apply (.group x base mask on) d).result = .error e :=
      pushGroup_of_error hcapacity x base mask on
    have hnone : ¬ (apply (.group x base mask on) d).result.isOk := by
      rw [hfailed]
      exact Bool.false_ne_true
    refine ⟨iff_of_false hnone (by rw [hcapacity]; exact Bool.false_ne_true),
      fun h => absurd h hnone, fun h => absurd h hnone, fun h => absurd h hnone, fun _ => ?_⟩
    simp only [apply, pushGroup, hcapacity]
  | ok capacity =>
    have hok : (apply (.group x base mask on) d).result.isOk :=
      isOk_pushGroup hcapacity x base mask on
    have height : (d.collector.capacityFor .polarity 8).isOk := by
      rw [hcapacity]
      rfl
    obtain ⟨hsingly, hpixels⟩ := forEach_pixels_adds x on
      (Buffer.isOk_capacityFor_mono height (length_exactRows_le base mask))
    refine ⟨iff_of_true hok height, fun _ => hsingly, fun _ k => Array.toList_inj.1 ?_,
      fun _ => ⟨d.pixelsAt x (exactRows base mask) on, ?_, ?_⟩, fun h => absurd hok h⟩
    · exact (hadds.of_ok hok k).trans (hpixels.of_ok hsingly k).symm
    · refine (hadds.of_ok hok .polarity).trans ?_
      rw [only_self]
    · intro e he
      obtain ⟨y, hy, rfl⟩ := List.mem_map.1 he
      exact (List.mem_filter.1 hy).2

/-- The highest array there is, and a group that reaches beyond its rows and beyond the last 16-bit
number: two of its eight pixels are added. -/
theorem apply_group_lastRows :
    ∃ d, Decoder.start (Wire.DvXplorer.device ⟨16, 65535⟩) {} = .ok d ∧
      ((apply (.group 3 65533 0xff true) d).decoder.buffer .polarity).events.toList.map
        PolarityEvent.y = [65533, 65534] ∧ d.GroupApplied 3 65533 0xff true := by
  have hstarts : (Decoder.start (Wire.DvXplorer.device ⟨16, 65535⟩) {}).isOk := by decide +kernel
  have hrows : ((Decoder.start (Wire.DvXplorer.device ⟨16, 65535⟩) {}).toOption.all fun d =>
      ((apply (.group 3 65533 0xff true) d).decoder.buffer .polarity).events.toList.map
        PolarityEvent.y == [65533, 65534]) := by decide +kernel
  obtain ⟨d, hd⟩ := exists_of_isOk hstarts
  rw [hd] at hrows
  exact ⟨d, hd, eq_of_beq hrows, apply_group d 3 65533 0xff true⟩

end Decoder

end EventCamera
