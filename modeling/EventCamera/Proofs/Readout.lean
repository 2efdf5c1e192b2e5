import EventCamera.Proofs.Framing
import EventCamera.Proofs.Pixels
import EventCamera.Proofs.RowAddress

/-! # Readouts of the DVXplorer

A readout is sent as five units: the tick, the column, the rows of two pixel groups, and the masks of
both groups. Tick and address stay until the next ones, so that a readout shows the same pixels whatever was
sent before it. -/

namespace EventCamera

/-- A column in which pixels of two groups of rows changed at the same time, all to the same side. -/
structure Readout where
  tick : Nat
  column : Nat
  group1 : Nat
  group2 : Nat
  mask1 : UInt8
  mask2 : UInt8
  on : Bool

namespace Readout

open Wire.DvXplorer

/-- The readout has room in the fields of its units, and its column and both of its groups begin in the
array. -/
structure Fits (r : Readout) (g : Geometry) : Prop where
  tick_lt : r.tick < 2 ^ 15
  column_lt : r.column < min g.width.toNat 1024
  group1_le : r.group1 ≤ 63
  distance_le : r.group1 ≤ r.group2 + 31 ∧ r.group2 ≤ r.group1 + 31
  row1_lt : 8 * r.group1 < g.height.toNat
  row2_lt : 8 * r.group2 < g.height.toNat

def units (r : Readout) : List (List UInt8) :=
  [Encode.tick r.tick, Encode.column r.column false, Encode.groupRows r.group1 r.group2,
    Encode.group true r.mask1.toNat r.on, Encode.group false r.mask2.toNat r.on]

def bytes (r : Readout) : List UInt8 :=
  r.units.flatten

/-- The pixels of a group, by the bits of its mask from the lowest up, as far as they are in the
array. -/
def groupPixels (r : Readout) (g : Geometry) (group : Nat) (mask : UInt8) : List PolarityEvent :=
  ((List.range 8).filter fun bit =>
      mask.toNat.testBit bit && decide (8 * group + bit < g.height.toNat)).map
    fun bit => ⟨.ofNat r.column, .ofNat (8 * group + bit), r.on, r.tick⟩

/-- The pixels of the first group, and then those of the second one. -/
def pixels (r : Readout) (g : Geometry) : List PolarityEvent :=
  r.groupPixels g r.group1 r.mask1 ++ r.groupPixels g r.group2 r.mask2

end Readout

namespace Wire.DvXplorer

def State.withAddress (s : State) (a : Address) : State :=
  { s with address := a }

variable (g : Geometry) (s : State)

/-! ## Units -/

theorem classify_tick {ticks : Nat} (h : ticks < 2 ^ 15) :
    (classify g s (Encode.tick ticks)).codes = [.tick (.ofNat ticks)] ∧
      (classify g s (Encode.tick ticks)).state = s := by
  obtain ⟨w, hw, hread⟩ : ∃ w, w = 2 ^ 15 + ticks ∧ classify g s (Encode.tick ticks) =
      { state := { s with address := (s.address.read g w).address }
        codes := (s.address.read g w).codes
        notices := (s.address.read g w).notices } := by
    refine ⟨_, ?_, rfl⟩
    simp only [word, field_eq, UInt8.toNat_ofNat']
    omega
  have hflag : flag w 15 := (flag_iff (show w < 2 ^ (15 + 1) by omega)).2 (by omega)
  have hticks : field w 0 15 = ticks := by
    rw [field_eq]
    omega
  simp [hread, Address.read, hflag, hticks]

theorem classify_column {x : Nat} (hwidth : x < g.width.toNat) (hfield : x < 1024) :
    (classify g s (Encode.column x false)).codes = [] ∧
      (classify g s (Encode.column x false)).state =
        s.withAddress { s.address with column := .ofNat x } := by
  obtain ⟨w, hflag, hdata, hcode, hcodes, hstate⟩ := read_unit g s 1 (field x 0 10 + 0)
  have hx : field x 0 10 = x := by
    rw [field_eq]
    omega
  have hkeep : (field x 0 10 + 0) % 2 ^ 12 = x := by omega
  have hstart : flag x 11 = false := by
    rw [Bool.eq_false_iff]
    intro hset
    have := (flag_iff (show x < 2 ^ (11 + 1) by omega)).1 hset
    omega
  have hread : s.address.read g w = { address := { s.address with column := .ofNat x } } := by
    rw [hkeep] at hdata
    simp [Address.read, hflag, hdata, hcode, Address.moveColumn, hx, hstart, hwidth]
  rw [hread] at hcodes hstate
  exact ⟨hcodes, hstate⟩

/-- The mask of a group is taken for the rows and the column of the address. -/
theorem classify_group (first : Bool) (mask : UInt8) (on : Bool) :
    (classify g s (Encode.group first mask.toNat on)).codes =
        [.group s.address.column (if first then s.address.row1 else s.address.row2) mask on] ∧
      (classify g s (Encode.group first mask.toNat on)).state = s := by
  have hmask := mask.toNat_lt
  obtain ⟨w, hflag, hdata, hcode, hcodes, hstate⟩ :=
    read_unit g s (if first then 3 else 2) (field mask.toNat 0 8 + if on then 0 else 0x100)
  have hlow : field (field w 0 12) 0 8 = mask.toNat := by
    rw [hdata]
    simp only [field_eq]
    split <;> omega
  have hdark : flag (field w 0 12) 8 = !on := by
    rw [hdata]
    simp only [flag, field_eq]
    cases on <;> simp <;> omega
  have hread : s.address.read g w = {
      address := s.address
      codes := [.group s.address.column (if first then s.address.row1 else s.address.row2) mask on] } := by
    cases first <;> simp [Address.read, hflag, hcode, Address.pixelGroup, hlow, hdark]
  rw [hread] at hcodes hstate
  exact ⟨hcodes, hstate⟩

/-! ## Rows -/

theorem of?_unit (data : Nat) :
    RowFields.of? (Encode.unit 4 data) = some (.ofData (data % 2 ^ 12)) := by
  have hword : word (UInt8.ofNat (field 4 0 3 <<< 12 + field data 0 12))
      (UInt8.ofNat ((field 4 0 3 <<< 12 + field data 0 12) / 256)) = 2 ^ 12 * 4 + data % 2 ^ 12 := by
    simp only [word, field_eq, Nat.shiftLeft_eq, UInt8.toNat_ofNat']
    omega
  have hcode : (2 ^ 12 * 4 + data % 2 ^ 12) / 2 ^ 12 = 4 := by omega
  have hdata : (2 ^ 12 * 4 + data % 2 ^ 12) % 2 ^ 12 = data % 2 ^ 12 := by omega
  simp only [Encode.unit, bytes, RowFields.of?, hword, hcode, hdata, if_true]

theorem ofData_fields {group offset : Nat} (hgroup : group < 2 ^ 6) (hoffset : offset < 2 ^ 5)
    (negative : Bool) :
    RowFields.ofData (group + 2 ^ 6 * offset + if negative then 2 ^ 11 else 0) =
      ⟨group, offset, negative⟩ := by
  cases negative <;> simp only [RowFields.ofData, RowFields.mk.injEq, decide_eq_true_eq,
    decide_eq_false_iff_not, Bool.false_eq_true, if_false, if_true] <;> omega

theorem exists_of?_groupRows {group1 group2 : Nat} (h : group1 ≤ 63)
    (hdistance : group1 ≤ group2 + 31 ∧ group2 ≤ group1 + 31) :
    ∃ f, RowFields.of? (Encode.groupRows group1 group2) = some f ∧
      f.rows = (8 * (group1 : Int), 8 * (group2 : Int)) := by
  obtain ⟨hbelow, habove⟩ := hdistance
  by_cases hle : group1 ≤ group2
  · have hdata : (field group1 0 6 + field (group2 - group1) 0 5 <<< 6) % 2 ^ 12 =
        group1 + 2 ^ 6 * (group2 - group1) + if false then 2 ^ 11 else 0 := by
      simp only [field_eq, Nat.shiftLeft_eq, Bool.false_eq_true, if_false]
      omega
    refine ⟨⟨group1, group2 - group1, false⟩, ?_, ?_⟩
    · rw [Encode.groupRows, if_pos hle, of?_unit, hdata, ofData_fields (by omega) (by omega)]
    · simp only [RowFields.rows, Bool.false_eq_true, if_false, Prod.mk.injEq, true_and]
      omega
  · have hdata : (field group1 0 6 + field (group1 - group2) 0 5 <<< 6 + 0x800) % 2 ^ 12 =
        group1 + 2 ^ 6 * (group1 - group2) + if true then 2 ^ 11 else 0 := by
      simp only [field_eq, Nat.shiftLeft_eq, if_true]
      omega
    refine ⟨⟨group1, group1 - group2, true⟩, ?_, ?_⟩
    · rw [Encode.groupRows, if_neg hle, of?_unit, hdata, ofData_fields (by omega) (by omega)]
    · simp only [RowFields.rows, if_true, Prod.mk.injEq, true_and]
      omega

theorem codes_groupRows (group1 group2 : Nat) :
    (classify g s (Encode.groupRows group1 group2)).codes = [] := by
  have hnone (data : Nat) : (s.address.moveRows g data).codes = [] := by
    simp only [Address.moveRows]
    split_ifs <;> rfl
  have hunit (data : Nat) : (classify g s (Encode.unit 4 data)).codes = [] := by
    obtain ⟨w, hflag, -, hcode, hcodes, -⟩ := read_unit g s 4 data
    simp [hcodes, Address.read, hflag, hcode, hnone]
  unfold Encode.groupRows
  split_ifs <;> exact hunit _

/-- Groups that begin in the array are taken over. -/
theorem classify_groupRows {group1 group2 : Nat} (h : group1 ≤ 63)
    (hdistance : group1 ≤ group2 + 31 ∧ group2 ≤ group1 + 31)
    (hrow1 : 8 * group1 < g.height.toNat) (hrow2 : 8 * group2 < g.height.toNat) :
    (classify g s (Encode.groupRows group1 group2)).codes = [] ∧
      ∃ row1 row2 : UInt16, row1.toNat = 8 * group1 ∧ row2.toNat = 8 * group2 ∧
        (classify g s (Encode.groupRows group1 group2)).state =
          s.withAddress { s.address with row1, row2 } := by
  obtain ⟨f, hunit, hrows⟩ := exists_of?_groupRows h hdistance
  have hin : f.InArray g := by
    simp only [RowFields.InArray, hrows]
    omega
  obtain ⟨hjudged, hcolumn, himu⟩ := rows_classify g s hunit (.inl hin)
  rw [if_pos hin, hrows, Address.rows, Prod.mk.injEq] at hjudged
  have hrest (s' : State) (hcolumn : s'.address.column = s.address.column) (himu : s'.imu = s.imu) :
      s' = s.withAddress { s.address with
        row1 := s'.address.row1, row2 := s'.address.row2 } := by
    simp only [State.withAddress, ← hcolumn, ← himu]
  exact ⟨codes_groupRows g s group1 group2, _, _, by omega, by omega, hrest _ hcolumn himu⟩

/-! ## Readouts -/

theorem pixels_group {r : Readout} {group : Nat} (hcolumn : r.column < g.width.toNat)
    {base : UInt16} (hbase : base.toNat = 8 * group) (mask : UInt8) :
    (Code.group (.ofNat r.column) base mask r.on).pixels g r.tick =
      r.groupPixels g group mask := by
  have hx : (UInt16.ofNat r.column).toNat = r.column := by
    have := g.width.toNat_lt
    simp only [UInt16.toNat_ofNat']
    omega
  have hin (bit : Nat) : g.contains (.ofNat r.column) (Decoder.rowAbove base bit) =
      decide (8 * group + bit < g.height.toNat) := by
    have := g.height.toNat_lt
    simp only [Geometry.contains, UInt16.lt_iff_toNat_lt, hx, hcolumn, decide_true, Bool.true_and,
      Decoder.rowAbove, hbase, UInt16.toNat_ofNat']
    congr 1
    simp only [eq_iff_iff]
    omega
  simp only [Code.pixels, Decoder.rowsOf, List.filter_map, List.map_map, List.filter_filter,
    Readout.groupPixels]
  have hfilter : (fun bit => (g.contains (.ofNat r.column) ∘ Decoder.rowAbove base) bit &&
      mask.toNat.testBit bit) =
      fun bit => mask.toNat.testBit bit && decide (8 * group + bit < g.height.toNat) := by
    funext bit
    simp only [Function.comp, hin, Bool.and_comm]
  rw [hfilter]
  refine List.map_congr_left fun bit hbit => ?_
  have hrow := (Bool.and_eq_true_iff.1 (List.mem_filter.1 hbit).2).2
  have hlast : min (base.toNat + bit) 0xffff = 8 * group + bit := by
    have := g.height.toNat_lt
    have := of_decide_eq_true hrow
    omega
  simp only [Function.comp, Decoder.rowAbove, hlast]

theorem view_tick {ticks : Nat} (h : ticks < 2 ^ 15) (e : Elapsed) (rest : List (List UInt8)) :
    (Camera.dvXplorer g).view s e (Encode.tick ticks :: rest) =
      (Camera.dvXplorer g).view s (e.after (.tick ticks)) rest := by
  obtain ⟨hcodes, hstate⟩ := classify_tick g s h
  exact Camera.view_cons (c := .dvXplorer g) hcodes hstate
    (Camera.mark_of_tick (c := .dvXplorer g) hcodes h) e rest

theorem view_plain {s' : State} {unit : List UInt8} {codes : List Code}
    (hcodes : (classify g s unit).codes = codes) (hstate : (classify g s unit).state = s')
    (hplain : ∀ code ∈ codes, code.Plain) (e : Elapsed) (rest : List (List UInt8)) :
    (Camera.dvXplorer g).view s e (unit :: rest) =
      codes.flatMap (Code.pixels g e.ticks) ++ (Camera.dvXplorer g).view s' e rest := by
  have hmark : (Camera.dvXplorer g).mark unit = .silent :=
    Camera.mark_of_plain (c := .dvXplorer g) (s := s) (hcodes ▸ hplain)
  exact Camera.view_cons (c := .dvXplorer g) hcodes hstate hmark e rest

theorem view_group {r : Readout} {group : Nat} (first : Bool)
    (hcolumn : s.address.column = .ofNat r.column) (hwidth : r.column < g.width.toNat)
    (hrow : (if first then s.address.row1 else s.address.row2).toNat = 8 * group) (mask : UInt8)
    {e : Elapsed} (htick : e.ticks = r.tick) (rest : List (List UInt8)) :
    (Camera.dvXplorer g).view s e (Encode.group first mask.toNat r.on :: rest) =
      r.groupPixels g group mask ++ (Camera.dvXplorer g).view s e rest := by
  obtain ⟨hcodes, hstate⟩ := classify_group g s first mask r.on
  rw [view_plain g s hcodes hstate (by simp [Code.Plain]), hcolumn, htick]
  simp [pixels_group g hwidth hrow]

/-- A readout shows its pixels at its tick, whatever came before it. -/
theorem exists_view_readout {r : Readout} (h : r.Fits g) (e : Elapsed) :
    ∃ s' e', ∀ rest, (Camera.dvXplorer g).view s e (r.units ++ rest) =
      r.pixels g ++ (Camera.dvXplorer g).view s' e' rest := by
  have hwidth : r.column < g.width.toNat := Nat.lt_of_lt_of_le h.column_lt (Nat.min_le_left ..)
  have hfield : r.column < 1024 := Nat.lt_of_lt_of_le h.column_lt (Nat.min_le_right ..)
  obtain ⟨hcolumn, hcolumn'⟩ := classify_column g s hwidth hfield
  obtain ⟨hrows, row1, row2, hrow1, hrow2, hrows'⟩ := classify_groupRows g
    (s.withAddress { s.address with column := .ofNat r.column })
    h.group1_le h.distance_le h.row1_lt h.row2_lt
  let a : Address := ⟨.ofNat r.column, row1, row2⟩
  let e' := e.after (.tick r.tick)
  refine ⟨s.withAddress a, e', fun rest => ?_⟩
  calc (Camera.dvXplorer g).view s e (r.units ++ rest)
      = (Camera.dvXplorer g).view s e' (r.units.drop 1 ++ rest) := view_tick g s h.tick_lt e _
    _ = (Camera.dvXplorer g).view _ e' (r.units.drop 2 ++ rest) :=
      view_plain g s hcolumn hcolumn' (List.forall_mem_nil _) e' _
    _ = (Camera.dvXplorer g).view (s.withAddress a) e' (r.units.drop 3 ++ rest) :=
      view_plain g _ hrows hrows' (List.forall_mem_nil _) e' _
    _ = r.groupPixels g r.group1 r.mask1 ++
        (Camera.dvXplorer g).view (s.withAddress a) e' (r.units.drop 4 ++ rest) :=
      view_group g (s.withAddress a) true rfl hwidth hrow1 r.mask1 rfl _
    _ = r.groupPixels g r.group1 r.mask1 ++ (r.groupPixels g r.group2 r.mask2 ++
        (Camera.dvXplorer g).view (s.withAddress a) e' rest) :=
      congrArg _ (view_group g (s.withAddress a) false rfl hwidth hrow2 r.mask2 rfl _)
    _ = r.pixels g ++ (Camera.dvXplorer g).view (s.withAddress a) e' rest :=
      (List.append_assoc ..).symm

/-- Readouts show their pixels one after the other. -/
theorem view_readouts {records : List Readout} (h : ∀ r ∈ records, r.Fits g) (e : Elapsed) :
    (Camera.dvXplorer g).view s e (records.flatMap Readout.units) =
      records.flatMap (Readout.pixels · g) := by
  induction records generalizing s e with
  | nil => rfl
  | cons r records ih =>
    obtain ⟨hfirst, hrest⟩ := List.forall_mem_cons.1 h
    obtain ⟨s', e', hview⟩ := exists_view_readout g s hfirst e
    rw [List.flatMap_cons, hview, ih s' hrest e', List.flatMap_cons]

/-- The units of a readout say nothing but ticks and pixels. -/
theorem visual_readout {r : Readout} (h : r.Fits g) :
    ∀ unit ∈ r.units, (Camera.dvXplorer g).Visual unit := by
  have hwidth : r.column < g.width.toNat := Nat.lt_of_lt_of_le h.column_lt (Nat.min_le_left ..)
  have hfield : r.column < 1024 := Nat.lt_of_lt_of_le h.column_lt (Nat.min_le_right ..)
  have hunit (unit : List UInt8)
      (h : ∀ s : State, ∀ code ∈ (classify g s unit).codes, code.Visual) :
      (Camera.dvXplorer g).Visual unit := h
  simp only [Readout.units, List.forall_mem_cons]
  refine ⟨hunit _ fun s => ?_, hunit _ fun s => ?_, hunit _ fun s => ?_, hunit _ fun s => ?_,
    hunit _ fun s => ?_, List.forall_mem_nil _⟩
  · simp [(classify_tick g s h.tick_lt).1, Code.Visual]
  · simp [(classify_column g s hwidth hfield).1]
  · simp [codes_groupRows]
  · simp [(classify_group g s true r.mask1 r.on).1, Code.Visual]
  · simp [(classify_group g s false r.mask2 r.on).1, Code.Visual]

end Wire.DvXplorer

namespace Readout

theorem length_of_mem_units {r : Readout} : ∀ unit ∈ r.units, unit.length = 2 := by
  have hrows : (Wire.DvXplorer.Encode.groupRows r.group1 r.group2).length = 2 := by
    unfold Wire.DvXplorer.Encode.groupRows
    split_ifs <;> rfl
  simp only [units, List.forall_mem_cons]
  exact ⟨rfl, rfl, hrows, rfl, rfl, List.forall_mem_nil _⟩

theorem units_flatMap_bytes (records : List Readout) :
    Decoder.units 2 (records.flatMap bytes) = records.flatMap units := by
  have hbytes : records.flatMap bytes = (records.flatMap units).flatten := by
    induction records with
    | nil => rfl
    | cons r records ih =>
      rw [List.flatMap_cons, List.flatMap_cons, List.flatten_append, ← ih]
      rfl
  have hlength : ∀ unit ∈ records.flatMap units, unit.length = 2 := by
    intro unit hunit
    obtain ⟨r, -, hr⟩ := List.mem_flatMap.1 hunit
    exact length_of_mem_units unit hr
  rw [hbytes, Decoder.units_flatten hlength]

end Readout

/-- Readouts are decoded to their pixels. However their bytes are read, as long as every read holds whole
units, and whatever is flushed in between: if no call fails, then the events found in the containers and
in the buffers are the pixels of the readouts, in their order, and nothing else. And no call fails under
settings that leave room for what a sealing may have to wait for. -/
theorem session_readouts {g : Geometry} {settings : Settings}
    {d d' : Decoder (Wire.DvXplorer.device g)} {records : List Readout} {calls : List Call}
    {x x' : Exchange} {log : List Occurrence} {results : List (Except DecodeError Unit)}
    (hfits : ∀ r ∈ records, r.Fits g)
    (hcalls : calls.flatMap (Call.units 2) = Decoder.units 2 (records.flatMap Readout.bytes))
    (hstart : Decoder.start (Wire.DvXplorer.device g) settings = .ok d)
    (h : Execution (session Decoder.call calls d) x log (d', results) x')
    (hsteady : Steady (stepsOf log)) :
    ((∀ r ∈ results, r.isOk) → ∀ k, d'.found (handovers (stepsOf log)) k =
      (only .polarity (records.flatMap (Readout.pixels · g)) k).map (·, 0)) ∧
    (settings.Spacious → ∀ r ∈ results, r.isOk) := by
  refine session_shows (c := .dvXplorer g) (hcalls.trans (Readout.units_flatMap_bytes records)) ?_
    (Wire.DvXplorer.view_readouts g _ hfits _) hstart h hsteady
  intro unit hunit
  obtain ⟨r, hr, hunit⟩ := List.mem_flatMap.1 hunit
  exact Wire.DvXplorer.visual_readout g (hfits r hr) unit hunit

/-- Two readouts of a small array, whose last group reaches beyond it. -/
def Readout.samples : List Readout :=
  [⟨100, 3, 0, 2, 0x81, 0x06, true⟩, ⟨40, 8, 2, 1, 0xff, 0, false⟩]

theorem session_readouts_sample :
    ∃ (d d' : Decoder (Wire.DvXplorer.device ⟨10, 20⟩)) (log : List Occurrence)
      (results : List (Except DecodeError Unit)) (x' : Exchange),
      Decoder.start (Wire.DvXplorer.device ⟨10, 20⟩) {} = .ok d ∧
      Execution (session Decoder.call
        (Readout.samples.flatMap fun r => [.decode r.bytes, .flush]) d) (.start 1) log (d', results) x' ∧
      (∀ r ∈ results, r.isOk) ∧ Steady (stepsOf log) ∧
      d'.found (handovers (stepsOf log)) .polarity =
        [(⟨3, 0, true, 100⟩, 0), (⟨3, 7, true, 100⟩, 0), (⟨3, 17, true, 100⟩, 0),
          (⟨3, 18, true, 100⟩, 0), (⟨8, 16, false, 40⟩, 0), (⟨8, 17, false, 40⟩, 0),
          (⟨8, 18, false, 40⟩, 0), (⟨8, 19, false, 40⟩, 0)] := by
  have hrun : undisturbed (Wire.DvXplorer.device ⟨10, 20⟩) {}
      (Readout.samples.flatMap fun r => [.decode r.bytes, .flush]) (.start 1) := by decide +kernel
  obtain ⟨d, d', results, log, x', hd, h, hok, hsteady⟩ := exists_of_undisturbed hrun
  have hfits : ∀ r ∈ Readout.samples, r.Fits ⟨10, 20⟩ := by
    simp only [Readout.samples, List.forall_mem_cons]
    exact ⟨⟨by decide, by decide, by decide, by decide, by decide, by decide⟩,
      ⟨by decide, by decide, by decide, by decide, by decide, by decide⟩, List.forall_mem_nil _⟩
  obtain ⟨hfound, -⟩ := session_readouts hfits (by decide +kernel) hd h hsteady
  refine ⟨d, d', log, results, x', hd, h, hok, hsteady, ?_⟩
  rw [hfound hok]
  decide +kernel

end EventCamera
