import EventCamera.Proofs.Inertial

/-! # Row addresses

A unit with row addresses names the first rows of two pixel groups, the second by its distance from the
first. The device computes both in 16 bits and compares what it gets with the height of the array. A
negative row comes out as one of the last rows that have a 16-bit number, which lies outside of the array
unless that has more than 65288 rows. -/

namespace EventCamera

namespace Wire.DvXplorer

/-- What kind of unit a word is; at least eight for a tick. -/
def unitCode : List UInt8 → Nat
  | low :: high :: _ => word low high / 2 ^ 12
  | _ => 0

/-- The fields of a unit with row addresses. -/
structure RowFields where
  group : Nat
  offset : Nat
  negative : Bool
  deriving DecidableEq

namespace RowFields

def ofData (data : Nat) : RowFields :=
  ⟨data % 2 ^ 6, data / 2 ^ 6 % 2 ^ 5, data / 2 ^ 11 % 2 = 1⟩

def of? : List UInt8 → Option RowFields
  | low :: high :: _ =>
    if word low high / 2 ^ 12 = 4 then some (ofData (word low high % 2 ^ 12)) else none
  | _ => none

/-- The first rows of the two groups, eight rows to a group. -/
def rows (f : RowFields) : Int × Int :=
  (8 * f.group, 8 * (f.group + if f.negative then -(f.offset : Int) else f.offset))

def InArray (f : RowFields) (g : Geometry) : Prop :=
  0 ≤ f.rows.1 ∧ f.rows.1 < g.height.toNat ∧ 0 ≤ f.rows.2 ∧ f.rows.2 < g.height.toNat

instance (f : RowFields) (g : Geometry) : Decidable (f.InArray g) :=
  inferInstanceAs (Decidable (_ ∧ _ ∧ _ ∧ _))

end RowFields

def Address.rows (a : Address) : Int × Int :=
  (a.row1.toNat, a.row2.toNat)

/-- A unit with row addresses is judged by the rows that it names: they are taken over if both are in
the array, and otherwise the rows before it stay. Nothing else changes. -/
structure RowFields.Judged (f : RowFields) (g : Geometry) (s s' : State) : Prop where
  rows_eq : s'.address.rows = if f.InArray g then f.rows else s.address.rows
  column_eq : s'.address.column = s.address.column
  imu_eq : s'.imu = s.imu

/-- Every unit with row addresses is judged so, whatever came before it. -/
def JudgesRows (g : Geometry) : Prop :=
  ∀ s unit f, RowFields.of? unit = some f → f.Judged g s (classify g s unit).state

/-- The rows of the last unit that named rows of the array, or zero before the first one. -/
def lastRows (g : Geometry) (units : List (List UInt8)) : Int × Int :=
  units.foldl
    (fun rows unit => ((RowFields.of? unit).filter (·.InArray g)).elim rows RowFields.rows) (0, 0)

/-- Whatever a decoder was sent, a pixel group of the next unit starts at the first or the second of the
last rows. -/
def CarriesRows (g : Geometry) : Prop :=
  ∀ settings d, Decoder.start (device g) settings = .ok d → ∀ moves unit x base mask on,
    let b := Ledger.run { decoder := d } moves
    .group x base mask on ∈ (classify g b.decoder.device unit).codes →
      (base.toNat : Int) =
        if unitCode unit = 3 then (lastRows g b.units).1 else (lastRows g b.units).2

/-! ## Sixteen bits -/

namespace RowFields

theorem ofData_bounds (data : Nat) : (ofData data).group < 2 ^ 6 ∧ (ofData data).offset < 2 ^ 5 :=
  ⟨Nat.mod_lt _ (by decide), Nat.mod_lt _ (by decide)⟩

/-- No row is further below the array than the greatest distance between two groups. -/
theorem rows_bounds (data : Nat) : 0 ≤ (ofData data).rows.1 ∧ (ofData data).rows.1 < 2 ^ 9 ∧
    -(8 * 31) ≤ (ofData data).rows.2 ∧ (ofData data).rows.2 < 2 ^ 10 := by
  obtain ⟨hgroup, hoffset⟩ := ofData_bounds data
  unfold rows
  split <;> omega

end RowFields

/-- What the device computes are the rows that the data name, but the second one in 16 bits. -/
theorem rows_rowsOf (data : Nat) :
    ((Address.rowsOf data).1.toNat : Int) = (RowFields.ofData data).rows.1 ∧
      ((Address.rowsOf data).2.toNat : Int) = (RowFields.ofData data).rows.2 % 2 ^ 16 := by
  have hgroup : field data 0 6 = (RowFields.ofData data).group := by
    simp [field_eq, RowFields.ofData]
  have hoffset : field data 6 5 = (RowFields.ofData data).offset := by
    simp [field_eq, RowFields.ofData]
  have hnegative : flag data 11 = (RowFields.ofData data).negative := by
    simp [flag, field_eq, RowFields.ofData]
  obtain ⟨hgroup_lt, hoffset_lt⟩ := RowFields.ofData_bounds data
  simp only [Address.rowsOf, RowFields.rows, hgroup, hoffset, hnegative]
  constructor
  · simp only [UInt16.toNat_mul, UInt16.toNat_ofNat', UInt16.toNat_ofNat]
    omega
  · split
    · simp only [UInt16.toNat_mul, UInt16.toNat_sub, UInt16.toNat_ofNat', UInt16.toNat_ofNat]
      omega
    · simp only [UInt16.toNat_mul, UInt16.toNat_add, UInt16.toNat_ofNat', UInt16.toNat_ofNat]
      omega

/-- The rows that are compared with the height are the ones in 16 bits. -/
theorem address_moveRows (g : Geometry) (a : Address) (data : Nat) :
    (a.moveRows g data).address =
      if (Address.rowsOf data).1 < g.height ∧ (Address.rowsOf data).2 < g.height then
        { a with row1 := (Address.rowsOf data).1, row2 := (Address.rowsOf data).2 }
      else a := by
  simp only [Address.moveRows, ← UInt16.not_lt]
  by_cases hrow1 : (Address.rowsOf data).1 < g.height
  · by_cases hrow2 : (Address.rowsOf data).2 < g.height
    · simp [hrow1, hrow2]
    · simp [hrow1, hrow2]
  · simp [hrow1]

/-- Both 16-bit rows pass for rows of the array just if the named ones are, except that a negative one
passes if the array has a row of its 16-bit number. -/
theorem rowsOf_lt_iff (g : Geometry) (data : Nat) :
    (Address.rowsOf data).1 < g.height ∧ (Address.rowsOf data).2 < g.height ↔
      (RowFields.ofData data).InArray g ∨
        (RowFields.ofData data).rows.1 < g.height.toNat ∧ (RowFields.ofData data).rows.2 < 0 ∧
          (RowFields.ofData data).rows.2 + 2 ^ 16 < g.height.toNat := by
  obtain ⟨hrow1, hrow2⟩ := rows_rowsOf data
  obtain ⟨h0, h1, h2, h3⟩ := RowFields.rows_bounds data
  simp only [UInt16.lt_iff_toNat_lt, RowFields.InArray]
  omega

/-! ## Units -/

theorem read_rows (g : Geometry) (a : Address) {w : Nat} (h : w / 2 ^ 12 = 4) :
    a.read g w = a.moveRows g (w % 2 ^ 12) := by
  have hparts : w = 2 ^ 12 * 4 + w % 2 ^ 12 := by omega
  obtain ⟨hflag, hdata, hcode⟩ := parts_of_word hparts (by decide) (Nat.mod_lt _ (by decide))
  simp only [Address.read, hflag, hdata, hcode]
  rfl

theorem rows_special (a : Address) (data : Nat) : (a.special data).address = a := by
  unfold Address.special
  split <;> rfl

theorem rows_moveColumn (g : Geometry) (a : Address) (data : Nat) :
    (a.moveColumn g data).address.rows = a.rows := by
  simp only [Address.moveColumn]
  split_ifs <;> rfl

theorem rows_misc (a : Address) (data : Nat) : (a.misc data).address = a := by
  unfold Address.misc
  split <;> rfl

theorem rows_read_of_ne (g : Geometry) (a : Address) {w : Nat} (hw : w < 2 ^ 16)
    (h : w / 2 ^ 12 ≠ 4) : (a.read g w).address.rows = a.rows := by
  unfold Address.read
  by_cases htick : flag w 15
  · rw [if_pos htick]
  · rw [if_neg htick]
    have hlt : w < 2 ^ 15 := Nat.lt_of_not_le fun hle => htick ((flag_iff hw).2 hle)
    have hcode : field w 12 3 ≠ 4 := by
      rw [field_eq]
      omega
    split
    case h_1 => exact congrArg Address.rows (rows_special ..)
    case h_2 => exact rows_moveColumn ..
    case h_5 heq => exact absurd heq hcode
    case h_6 => exact congrArg Address.rows (rows_misc ..)
    all_goals rfl

theorem base_of_group {g : Geometry} {a : Address} {w : Nat} (hw : w < 2 ^ 16) {x base : UInt16}
    {mask : UInt8} {on : Bool} (h : .group x base mask on ∈ (a.read g w).codes) :
    base = if w / 2 ^ 12 = 3 then a.row1 else a.row2 := by
  unfold Address.read at h
  by_cases htick : flag w 15
  · simp [if_pos htick] at h
  · rw [if_neg htick] at h
    have hlt : w < 2 ^ 15 := Nat.lt_of_not_le fun hle => htick ((flag_iff hw).2 hle)
    have hcode : field w 12 3 = w / 2 ^ 12 := by
      rw [field_eq]
      omega
    simp only [hcode] at h
    split at h
    case h_3 heq =>
      have hbase : base = a.row2 := by
        simp only [Address.pixelGroup, List.mem_singleton, Code.group.injEq] at h
        exact h.2.1
      rw [hbase, heq]
      rfl
    case h_4 heq =>
      have hbase : base = a.row1 := by
        simp only [Address.pixelGroup, List.mem_singleton, Code.group.injEq] at h
        exact h.2.1
      rw [hbase, heq]
      rfl
    case h_1 =>
      unfold Address.special at h
      split at h <;> simp at h
    case h_2 =>
      simp only [Address.moveColumn] at h
      split at h <;> split at h <;> simp at h
    case h_5 =>
      simp only [Address.moveRows] at h
      split at h <;> [skip; split at h] <;> simp at h
    case h_6 =>
      unfold Address.misc at h
      split at h <;> simp at h
    all_goals simp at h

/-! ## One unit -/

/-- What a unit leaves of the rows: with no more than 65288 rows nothing but rows of the array is taken
over, and rows of the array are in any case. -/
theorem rows_classify (g : Geometry) (s : State) {unit : List UInt8} {f : RowFields}
    (h : RowFields.of? unit = some f)
    (hexact : f.InArray g ∨ g.height.toNat ≤ 2 ^ 16 - 8 * 31) :
    f.Judged g s (classify g s unit).state := by
  cases unit with
  | nil => cases h
  | cons low rest =>
    cases rest with
    | nil => cases h
    | cons high rest =>
      simp only [RowFields.of?, Option.ite_none_right_eq_some, Option.some.injEq] at h
      obtain ⟨hcode, rfl⟩ := h
      obtain ⟨-, -, hlow, hhigh⟩ := RowFields.rows_bounds (word low high % 2 ^ 12)
      have haddress : (classify g s (low :: high :: rest)).state.address =
          (s.address.moveRows g (word low high % 2 ^ 12)).address := by
        rw [← read_rows g s.address hcode]
        rfl
      have hiff := rowsOf_lt_iff g (word low high % 2 ^ 12)
      obtain ⟨hrow1, hrow2⟩ := rows_rowsOf (word low high % 2 ^ 12)
      by_cases hin : (RowFields.ofData (word low high % 2 ^ 12)).InArray g
      · rw [address_moveRows, if_pos (hiff.2 (.inl hin))] at haddress
        refine ⟨?_, by rw [haddress], rfl⟩
        rw [haddress, if_pos hin]
        refine Prod.ext hrow1 (hrow2.trans ?_)
        have := hin.2.2.1
        omega
      · have hout : ¬ ((Address.rowsOf (word low high % 2 ^ 12)).1 < g.height ∧
            (Address.rowsOf (word low high % 2 ^ 12)).2 < g.height) := by
          have hsmall := hexact.resolve_left hin
          rw [hiff]
          rintro (hin' | ⟨-, hnegative, hlast⟩)
          · exact hin hin'
          · omega
        rw [address_moveRows, if_neg hout] at haddress
        refine ⟨?_, by rw [haddress], rfl⟩
        rw [haddress, if_neg hin]

theorem rows_classify_of_none (g : Geometry) (s : State) {unit : List UInt8}
    (h : RowFields.of? unit = none) :
    (classify g s unit).state.address.rows = s.address.rows := by
  cases unit with
  | nil => rfl
  | cons low rest =>
    cases rest with
    | nil => rfl
    | cons high rest =>
      simp only [RowFields.of?, ite_eq_right_iff, reduceCtorEq, imp_false] at h
      exact rows_read_of_ne g s.address (word_lt low high) h

theorem lastRows_append_singleton (g : Geometry) (units : List (List UInt8)) (unit : List UInt8) :
    lastRows g (units ++ [unit]) =
      ((RowFields.of? unit).filter (·.InArray g)).elim (lastRows g units) RowFields.rows := by
  simp [lastRows]

/-- With no more than 65288 rows, the rows of the address are the last ones. -/
theorem rows_classify_eq {g : Geometry} (hheight : g.height.toNat ≤ 2 ^ 16 - 8 * 31) {s : State}
    {units : List (List UInt8)} (h : s.address.rows = lastRows g units) (unit : List UInt8) :
    (classify g s unit).state.address.rows = lastRows g (units ++ [unit]) := by
  rw [lastRows_append_singleton]
  cases hunit : RowFields.of? unit with
  | none => rw [rows_classify_of_none g s hunit, h]; rfl
  | some f =>
    have hjudged := rows_classify g s hunit (.inr hheight)
    rw [hjudged.rows_eq, h]
    by_cases hin : f.InArray g <;> simp [Option.filter, hin]

theorem base_of_group_classify {g : Geometry} {s : State} {unit : List UInt8} {x base : UInt16}
    {mask : UInt8} {on : Bool} (h : .group x base mask on ∈ (classify g s unit).codes) :
    (base.toNat : Int) = if unitCode unit = 3 then s.address.rows.1 else s.address.rows.2 := by
  cases unit with
  | nil => cases h
  | cons low rest =>
    cases rest with
    | nil => cases h
    | cons high rest =>
      have hbase := base_of_group (word_lt low high) h
      rw [hbase]
      change _ = if word low high / 2 ^ 12 = 3 then _ else _
      split_ifs <;> rfl

/-! ## Any number of units -/

variable {g : Geometry}

theorem address_apply (code : Code) (d : Decoder (device g)) :
    (Decoder.apply code d).decoder.device.address = d.device.address := by
  cases code with
  | composite kind step =>
    exact (congrArg State.address (d.device_applyComposite kind step)).trans rfl
  | tick | wrap | reset | pixel | group | special =>
    exact congrArg State.address (Decoder.device_apply (by simp))

theorem address_forEach (codes : List Code) (d : Decoder (device g)) :
    (Decoder.forEach Decoder.apply codes d).decoder.device.address = d.device.address := by
  induction codes generalizing d with
  | nil => rfl
  | cons code codes ih =>
    have hfirst := address_apply code d
    simp only [Decoder.forEach, Decoder.Applied.andThen]
    cases (Decoder.apply code d).result with
    | error e => exact hfirst
    | ok forced => exact (ih _).trans hfirst

theorem address_settled (a : Applied (device g)) :
    (Decoder.settled a).decoder.device.address = a.decoder.device.address := by
  cases ha : a.result with
  | error e => simp only [Decoder.settled, ha]; rfl
  | ok forced =>
    simp only [Decoder.settled, ha, Except.bind]
    cases a.decoder.collector.settle forced with
    | error e => rfl
    | ok r =>
      simp only [Except.map]
      cases r.1.bind Sealing.fault? with
      | some e => rfl
      | none => cases forced <;> rfl

/-- A unit leaves the address that it reads, whether it fails or not. -/
theorem address_advance_unit (b : Ledger (device g)) (unit : List UInt8) :
    (b.advance (.unit unit)).decoder.device.address =
      (classify g b.decoder.device unit).state.address :=
  (address_settled _).trans (address_forEach ..)

theorem address_advance_rest (b : Ledger (device g)) :
    (b.advance .rest).decoder.device.address = b.decoder.device.address :=
  congrArg State.address b.decoder.device_make_rest

/-- What was sealed or failed meanwhile makes no difference to the rows. -/
theorem rows_run (hheight : g.height.toNat ≤ 2 ^ 16 - 8 * 31) {b : Ledger (device g)}
    (h : b.decoder.device.address.rows = lastRows g b.units) (moves : List Move) :
    (b.run moves).decoder.device.address.rows = lastRows g (b.run moves).units := by
  induction moves generalizing b with
  | nil => exact h
  | cons m moves ih =>
    apply ih
    cases m with
    | unit unit =>
      rw [address_advance_unit]
      exact rows_classify_eq hheight h unit
    | rest =>
      rw [address_advance_rest]
      exact h

/-! ## Arrays with more rows -/

/-- The unit that names the lowest of all rows, 248 rows below the array. -/
def lowestRow : List UInt8 :=
  [0xc0, 0x4f]

theorem of?_lowestRow : RowFields.of? lowestRow = some ⟨0, 31, true⟩ := by decide

theorem not_inArray_lowestRow (g : Geometry) : ¬ RowFields.InArray ⟨0, 31, true⟩ g :=
  fun h => absurd h.2.2.1 (by decide)

theorem lastRows_lowestRow (g : Geometry) : lastRows g [lowestRow] = (0, 0) := by
  simp [lastRows, of?_lowestRow, not_inArray_lowestRow g, Option.filter]

/-- In an array with more than 65288 rows the lowest row passes for one of the last. -/
theorem rows_classify_lowestRow (h : 2 ^ 16 - 8 * 31 < g.height.toNat) (s : State) :
    (classify g s lowestRow).state.address.rows = (0, 2 ^ 16 - 8 * 31) := by
  have hpasses : (Address.rowsOf 0xfc0).1 < g.height ∧ (Address.rowsOf 0xfc0).2 < g.height := by
    refine (rowsOf_lt_iff g 0xfc0).2 (.inr ⟨?_, by decide, ?_⟩)
    · have : (RowFields.ofData 0xfc0).rows.1 = 0 := by decide
      omega
    · have : (RowFields.ofData 0xfc0).rows.2 = -(8 * 31) := by decide
      omega
  have hread : (classify g s lowestRow).state.address = (s.address.moveRows g 0xfc0).address :=
    congrArg Reading.address (read_rows g s.address (by decide))
  rw [hread, address_moveRows, if_pos hpasses]
  change (((Address.rowsOf 0xfc0).1.toNat : Int), ((Address.rowsOf 0xfc0).2.toNat : Int)) = _
  decide

theorem height_le_of_judgesRows (h : JudgesRows g) : g.height.toNat ≤ 2 ^ 16 - 8 * 31 := by
  refine Nat.le_of_not_lt fun hheight => ?_
  have hjudged := (h {} lowestRow _ of?_lowestRow).rows_eq
  rw [rows_classify_lowestRow hheight, if_neg (not_inArray_lowestRow g)] at hjudged
  exact absurd hjudged (by decide)

theorem height_le_of_carriesRows (h : CarriesRows g) : g.height.toNat ≤ 2 ^ 16 - 8 * 31 := by
  refine Nat.le_of_not_lt fun hheight => ?_
  obtain ⟨d, hstart⟩ : ∃ d, Decoder.start (device g) {} = .ok d := ⟨_, rfl⟩
  have hrows : (Ledger.run { decoder := d } [.unit lowestRow]).decoder.device.address.rows = _ :=
    (congrArg Address.rows (address_advance_unit { decoder := d } lowestRow)).trans
      (rows_classify_lowestRow hheight _)
  have hlast : lastRows g (Ledger.run { decoder := d } [.unit lowestRow]).units = (0, 0) :=
    lastRows_lowestRow g
  have hcarried := h {} d hstart [.unit lowestRow] [0x01, 0x20] _ _ _ _ (List.mem_singleton.2 rfl)
  rw [if_neg (by decide), hlast] at hcarried
  exact absurd ((congrArg Prod.snd hrows).symm.trans hcarried) (by decide)

end Wire.DvXplorer

open Wire.DvXplorer in
/-- Row addresses are judged by the exact rows that they name, in every state, and pixel groups start at
the exact rows of the last unit accepted, after whatever was sent: both just if the array has no more than
65288 rows. -/
theorem rows_exact_iff (g : Geometry) :
    (JudgesRows g ↔ g.height.toNat ≤ 2 ^ 16 - 8 * 31) ∧
      (CarriesRows g ↔ g.height.toNat ≤ 2 ^ 16 - 8 * 31) := by
  refine ⟨⟨height_le_of_judgesRows, ?_⟩, ⟨height_le_of_carriesRows, ?_⟩⟩
  · intro hheight s unit f hunit
    exact rows_classify g s hunit (.inr hheight)
  · intro hheight settings d hstart moves unit x base mask on b hmem
    have hrows := rows_run hheight (b := { decoder := d })
      (congrArg (fun s : State => s.address.rows) (Decoder.start_ok hstart).device_eq) moves
    rw [← hrows]
    exact base_of_group_classify hmem

open Wire.DvXplorer in
/-- In an array of 65535 rows, a second group that is one group below the first row is taken for the
rows from 65528 upward, and a pixel group starts there. -/
theorem not_judgesRows_belowArray :
    let g : Geometry := ⟨16, 65535⟩
    let s := (classify g {} [0x40, 0x48]).state
    RowFields.of? [0x40, 0x48] = some ⟨0, 1, true⟩ ∧ RowFields.rows ⟨0, 1, true⟩ = (0, -8) ∧
      s.address.rows = (0, 65528) ∧
      (classify g s [0x01, 0x20]).codes = [.group 0 65528 1 true] ∧
      ¬ JudgesRows g ∧ ¬ CarriesRows g :=
  ⟨by decide, by decide, by decide, by decide,
    fun h => absurd (height_le_of_judgesRows h) (by decide),
    fun h => absurd (height_le_of_carriesRows h) (by decide)⟩

end EventCamera
