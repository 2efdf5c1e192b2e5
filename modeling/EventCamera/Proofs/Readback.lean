import EventCamera.Proofs.Tables

/-! # Tables read back

The file of a table is its header and a line for every event, and nothing else. Its pixels and special
events are read back from the numbers in the lines, each with its time and its epoch. -/

namespace EventCamera

/-! ## Numbers -/

/-- The number that decimal digits tell, if there is a digit and nothing else. -/
def readNat? (text : List Char) : Option Nat :=
  if text ≠ [] ∧ text.all Char.isDigit then some (Nat.ofDigitChars 10 text 0) else none

/-- The number that a text tells in decimal digits, behind a minus sign if it is negative. -/
def readInt? (text : String) : Option Int :=
  match text.toList with
  | '-' :: digits => (readNat? digits).map fun n : Nat => -(n : Int)
  | digits => (readNat? digits).map Int.ofNat

theorem isDigit_of_mem {n : Nat} : ∀ c ∈ Nat.toDigits 10 n, c.isDigit :=
  fun _ => Nat.isDigit_of_mem_toDigits (show 0 < 10 by decide) (show 10 ≤ 10 by decide)

theorem readNat?_toDigits (n : Nat) : readNat? (Nat.toDigits 10 n) = some n := by
  rw [readNat?, if_pos ⟨Nat.toDigits_ne_nil, List.all_eq_true.2 isDigit_of_mem⟩, Nat.ofDigitChars_ten_toDigits]

theorem readInt?_repr (n : Nat) : readInt? n.repr = some (n : Int) := by
  rw [readInt?, Nat.toList_repr]
  split
  · rename_i digits hsign
    cases isDigit_of_mem '-' (hsign ▸ List.mem_cons_self)
  · rw [readNat?_toDigits, Option.map_some]
    rfl

namespace Fragments

theorem readInt?_ofNat (n : Nat) : readInt? (ofNat n).text = some (n : Int) := by
  rw [text_ofNat]
  exact readInt?_repr n

theorem readInt?_ofInt (i : Int) : readInt? (ofInt i).text = some i := by
  rw [text_ofInt]
  cases i with
  | ofNat n => exact readInt?_repr n
  | negSucc n =>
    have hsigned : (Int.negSucc n).repr.toList = '-' :: Nat.toDigits 10 (n + 1) := by
      change ("-" ++ (n + 1).repr).toList = _
      rw [String.toList_append, Nat.toList_repr]
      rfl
    rw [readInt?, hsigned]
    exact congrArg (Option.map _) (readNat?_toDigits (n + 1))

end Fragments

namespace Csv

/-! ## Headers -/

def geometryText (g : Geometry) : String :=
  "%geometry:" ++ (g.width.toNat.repr ++ ("," ++ g.height.toNat.repr))

/-- The lines before those of the events. -/
def headerLines (geometry : Option Geometry) (k : EventKind) : List String :=
  match k, geometry with
  | .polarity, some g => [geometryText g, ",".intercalate (columns k)]
  | _, _ => [",".intercalate (columns k)]

theorem text_headerLine (k : EventKind) :
    (headerLine k).text = terminated [",".intercalate (columns k)] :=
  rfl

theorem text_geometryLine (g : Geometry) : (geometryLine g).text = terminated [geometryText g] := by
  simp only [geometryLine, geometryText, terminated, Fragments.text_append, Fragments.text_cons,
    Fragments.text_nil, Fragments.text_ofNat, List.map_cons, List.map_nil, String.join_cons,
    String.join_nil, String.append_assoc, String.append_empty]

theorem text_header (geometry : Option Geometry) (k : EventKind) :
    (header geometry k).text = terminated (headerLines geometry k) := by
  cases k with
  | polarity =>
    cases geometry with
    | none => exact text_headerLine _
    | some g =>
      rw [header, Fragments.text_append, text_geometryLine, text_headerLine, ← terminated_append]
      rfl
  | special | frame | imu6 => exact text_headerLine _

theorem newline_not_mem_intercalate {parts : List String} (h : ∀ part ∈ parts, '\n' ∉ part.toList) :
    '\n' ∉ (",".intercalate parts).toList := by
  induction parts with
  | nil => simp
  | cons part parts ih =>
    obtain ⟨hfirst, hrest⟩ := List.forall_mem_cons.1 h
    cases parts with
    | nil =>
      rw [String.intercalate_singleton]
      exact hfirst
    | cons next parts =>
      have hcomma : '\n' ∉ ",".toList := by simp
      rw [String.intercalate_cons_cons, String.toList_append, String.toList_append]
      exact List.not_mem_append (List.not_mem_append hfirst hcomma) (ih hrest)

theorem newline_not_mem_headerLines (geometry : Option Geometry) (k : EventKind) :
    ∀ line ∈ headerLines geometry k, '\n' ∉ line.toList := by
  have hdigits (n : Nat) : '\n' ∉ Nat.toDigits 10 n := fun hmem =>
    (Fragments.plain_toDigits n _ hmem).2 rfl
  have hcolumns (k : EventKind) : '\n' ∉ (",".intercalate (columns k)).toList :=
    newline_not_mem_intercalate (by cases k <;> simp [columns])
  have hgeometry (g : Geometry) : '\n' ∉ (geometryText g).toList := by
    simp [geometryText, hdigits]
  unfold headerLines
  split
  · exact List.forall_mem_cons.2 ⟨hgeometry _, List.forall_mem_singleton.2 (hcolumns _)⟩
  · exact List.forall_mem_singleton.2 (hcolumns _)

/-! ## Rows -/

theorem plain_cells (epoch : Int) (k : EventKind) (e : k.Record) :
    ∀ cell ∈ cells epoch k e, cell.Plain := by
  cases k <;> simp [cells, Fragments.plain_ofNat, Fragments.plain_ofInt, Fragments.plain_ofFloat32]

theorem newline_not_mem_rowLine {k : EventKind} (row : Int × k.Record) :
    '\n' ∉ (rowLine k row).toList := by
  refine newline_not_mem_intercalate fun text htext hmem => ?_
  obtain ⟨cell, hcell, rfl⟩ := List.mem_map.1 htext
  exact ((plain_cells _ _ _ cell hcell).text _ hmem).2 rfl

/-- The numbers between the commas of a line, if it has nothing else. -/
def readCells (line : String) : Option (List Int) :=
  (cut ',' line).mapM readInt?

/-- The numbers that are written for an event. -/
def values (epoch : Int) : (k : EventKind) → k.Record → List Int
  | .special, e => [SpecialEvent.kind e |>.code, e.data.toNat, fullTime epoch e.time]
  | .polarity, e => [(PolarityEvent.x e).toNat, e.y.toNat, e.on.toNat, fullTime epoch e.time]
  | .frame, _ | .imu6, _ => []

/-- The kinds whose lines consist of whole numbers. -/
def numeric : List EventKind := [.polarity, .special]

theorem readCells_rowLine {k : EventKind} (hk : k ∈ numeric) (row : Int × k.Record) :
    readCells (rowLine k row) = some (values row.1 k row.2) := by
  have hcut : cut ',' (rowLine k row) = (cells row.1 k row.2).map Fragments.text := by
    refine cut_intercalate (fun text htext hmem => ?_) ?_
    · obtain ⟨cell, hcell, rfl⟩ := List.mem_map.1 htext
      exact ((plain_cells _ _ _ cell hcell).text _ hmem).1 rfl
    · rcases k <;> simp [numeric, cells] at hk ⊢
  rw [readCells, hcut]
  cases k with
  | special | polarity => simp [cells, values, Fragments.readInt?_ofNat, Fragments.readInt?_ofInt]
  | frame | imu6 => exact absurd hk (by decide)

/-- The event that numbers tell of, with its epoch: the number of whole epochs in the full time. What is
left of the full time is the time of the event. -/
def readRow : (k : EventKind) → List Int → Option (Int × k.Record)
  | .polarity, [x, y, on, full] =>
    some (full / epochLength, ⟨.ofNat x.toNat, .ofNat y.toNat, on == 1, full % epochLength⟩)
  | .special, [code, data, full] =>
    (SpecialKind.ofCode? code.toNat).map fun kind =>
      (full / epochLength, ⟨kind, .ofNat data.toNat, full % epochLength⟩)
  | _, _ => none

/-- The epoch and the time of an event are not negative, and have 31 bits at most. -/
structure InRange (k : EventKind) (row : Int × k.Record) : Prop where
  epoch_nonneg : 0 ≤ row.1
  epoch_le : row.1 ≤ maxTime
  time_nonneg : 0 ≤ k.time row.2
  time_le : k.time row.2 ≤ maxTime

instance (k : EventKind) (row : Int × k.Record) : Decidable (InRange k row) :=
  decidable_of_iff (0 ≤ row.1 ∧ row.1 ≤ maxTime ∧ 0 ≤ k.time row.2 ∧ k.time row.2 ≤ maxTime)
    ⟨fun ⟨h₁, h₂, h₃, h₄⟩ => ⟨h₁, h₂, h₃, h₄⟩, fun ⟨h₁, h₂, h₃, h₄⟩ => ⟨h₁, h₂, h₃, h₄⟩⟩

theorem readRow_values {k : EventKind} (hk : k ∈ numeric) {row : Int × k.Record} (h : InRange k row) :
    readRow k (values row.1 k row.2) = some row := by
  obtain ⟨epoch, e⟩ := row
  obtain ⟨hepoch, hepoch', htime, htime'⟩ := h
  have hfull := fullTime_eq (Int.le_trans (by decide) hepoch)
    (Int.lt_of_le_of_lt hepoch' (by decide)) htime htime'
  have hdiv : fullTime epoch (k.time e) / epochLength = epoch := by
    simp only [maxTime, epochLength] at *
    omega
  have hmod : fullTime epoch (k.time e) % epochLength = k.time e := by
    simp only [maxTime, epochLength] at *
    omega
  cases k with
  | special =>
    change fullTime epoch (SpecialEvent.time e) / epochLength = epoch at hdiv
    change fullTime epoch (SpecialEvent.time e) % epochLength = SpecialEvent.time e at hmod
    simp [values, readRow, SpecialKind.ofCode?_code, hdiv, hmod]
  | polarity =>
    change fullTime epoch (PolarityEvent.time e) / epochLength = epoch at hdiv
    change fullTime epoch (PolarityEvent.time e) % epochLength = PolarityEvent.time e at hmod
    have hon : ((PolarityEvent.on e).toNat == (1 : Int)) = e.on := by
      cases e.on <;> rfl
    simp [values, readRow, hdiv, hmod, hon]
  | frame | imu6 => exact absurd hk (by decide)

example : readRow .polarity [3, 4, 1, 0x80000007] = some (1, ⟨3, 4, true, 7⟩) := by decide

/-! ## Files -/

/-- All lines of a table. -/
def fileLines (geometry : Option Geometry) (k : EventKind) (containers : List Container) : List String :=
  headerLines geometry k ++ (rows k containers).map (rowLine k)

/-- The file of a table holds the header and then the data, one line for each event of the kind, and
nothing else. The events are counted. -/
structure Filed (geometry : Option Geometry) (k : EventKind) (containers : List Container)
    (data : List String) (t : Table) : Prop where
  file : ∃ w, t.1 = some w ∧ cut '\n' w.sink.text = headerLines geometry k ++ data ++ [""]
  length_eq : data.length = (rows k containers).length
  count_eq : t.2 = data.length

def blank (sink? : Option Sink) : Table :=
  (sink?.map fun sink => { sink }, 0)

theorem table_start (geometry : Option Geometry) (sinks : PerKind fun _ => Option Sink)
    (k : EventKind) : (start geometry sinks).table k =
      ((sinks.get k).map fun sink => (({ sink } : Writer).putAll (header geometry k)).2, 0) := by
  rw [table, start, PerKind.get_map, PerKind.get_of]

theorem start_eq {geometry : Option Geometry} {sinks : PerKind fun _ => Option Sink} {k : EventKind}
    (h : (blank (sinks.get k)).HasRoom (terminated (headerLines geometry k)).utf8ByteSize) :
    Table.Gained (terminated (headerLines geometry k)) 0 (blank (sinks.get k))
      ((start geometry sinks).table k) := by
  rw [table_start]
  cases hsink : sinks.get k with
  | none => exact .absent 0
  | some sink =>
    rw [hsink, ← text_header] at h
    obtain ⟨w, hput, htook⟩ := Writer.putAll_of_hasRoom (h _ rfl)
    rw [← text_header, Option.map_some, hput]
    exact .present htook

/-- Containers that are written, and flushed, are in the tables as a whole. -/
theorem gained_written {geometry : Option Geometry} {sinks : PerKind fun _ => Option Sink}
    {containers : List Container}
    (h : ∀ k ∈ kinds, (blank (sinks.get k)).HasRoom
      (terminated (fileLines geometry k containers)).utf8ByteSize) :
    ∃ c c', (start geometry sinks).writeAll containers = (none, c) ∧ c.flush = (none, c') ∧
      (∀ k ∈ kinds,
        Table.Gained (terminated (fileLines geometry k containers)) (rows k containers).length
          (blank (sinks.get k)) (c'.table k) ∧
        ∀ w ∈ (c'.table k).1, w.pending = "") ∧
      ∀ k ∉ kinds, c'.table k = (start geometry sinks).table k := by
  -- the room for a file is the room for its header, and then that for its rows
  have htext (k : EventKind) : terminated (fileLines geometry k containers) =
      terminated (headerLines geometry k) ++ rowsText k (rows k containers) :=
    terminated_append _ _
  simp only [htext, String.utf8ByteSize_append] at h ⊢
  have hstart (k : EventKind) (hk : k ∈ kinds) : Table.Gained (terminated (headerLines geometry k)) 0
      (blank (sinks.get k)) ((start geometry sinks).table k) :=
    start_eq ((h k hk).mono (Nat.le_add_right ..))
  obtain ⟨c, hwrite, hgained, hother⟩ := writeAll_eq fun k hk => (hstart k hk).hasRoom (h k hk)
  have hleft (k : EventKind) (hk : k ∈ kinds) : (c.table k).HasRoom 0 :=
    (hgained k hk).hasRoom ((hstart k hk).hasRoom (h k hk))
  obtain ⟨c', hflush, hflushed, hothers⟩ := flush_eq hleft
  refine ⟨c, c', hwrite, hflush, fun k hk => ⟨?_, (hflushed k hk).pending_eq⟩,
    fun k hk => (hothers k hk).trans (hother k hk)⟩
  have hall := ((hstart k hk).append (hgained k hk)).append (hflushed k hk).gained
  rwa [String.append_empty, Nat.zero_add, Nat.add_zero] at hall

theorem blank_hasRoom {sink? : Option Sink} {bytes : Nat} (h : ∀ sink ∈ sink?, sink.Fits bytes) :
    (blank sink?).HasRoom bytes := by
  intro w hw limit hlimit
  obtain ⟨sink, hsink, rfl⟩ := Option.map_eq_some_iff.1 hw
  rw [Writer.text, String.append_empty]
  exact h sink hsink limit hlimit

/-- A file that was empty before holds all lines once nothing waits. -/
theorem filed_of_gained {geometry : Option Geometry} {k : EventKind} {containers : List Container}
    {sink : Sink} {t : Table} (hempty : sink.text = "")
    (h : Table.Gained (terminated (fileLines geometry k containers)) (rows k containers).length
      (blank (some sink)) t) (hpending : ∀ w ∈ t.1, w.pending = "") :
    Filed geometry k containers ((rows k containers).map (rowLine k)) t := by
  obtain - | ⟨htook⟩ := h
  rename_i w
  have htext : w.sink.text = terminated (fileLines geometry k containers) := by
    have heq := htook.text_eq
    rw [Writer.text, Writer.text, hpending w rfl, hempty] at heq
    simpa using heq
  refine ⟨⟨w, rfl, ?_⟩, List.length_map _, ?_⟩
  · rw [htext]
    refine cut_terminated fun line hline => ?_
    rcases List.mem_append.1 hline with hheader | hrow
    · exact newline_not_mem_headerLines geometry k line hheader
    · obtain ⟨row, -, rfl⟩ := List.mem_map.1 hrow
      exact newline_not_mem_rowLine row
  · rw [List.length_map]
    exact Nat.zero_add _

/-- If no sink fails for want of room, containers that are written to tables, and these flushed, are in
the files as a whole. The pixels and special events are read back from the numbers in their lines. -/
theorem written {geometry : Option Geometry} {sinks : PerKind fun _ => Option Sink}
    {containers : List Container}
    (hsinks : ∀ k ∈ kinds, ∀ sink ∈ sinks.get k, sink.text = "" ∧
      sink.Fits (terminated (fileLines geometry k containers)).utf8ByteSize)
    (hrange : ∀ k ∈ numeric, ∀ row ∈ rows k containers, InRange k row) :
    ∃ c c', (start geometry sinks).writeAll containers = (none, c) ∧ c.flush = (none, c') ∧
      (∀ k ∈ kinds, (sinks.get k).isSome → ∃ data, Filed geometry k containers data (c'.table k) ∧
        (k ∈ numeric →
          data.map readCells = (rows k containers).map (fun row => some (values row.1 k row.2)) ∧
          data.map (fun line => (readCells line).bind (readRow k)) =
            (rows k containers).map some)) ∧
      ∀ k, k ∉ kinds ∨ sinks.get k = none → c'.counts.get k = 0 := by
  obtain ⟨c, c', hwrite, hflush, htables, hother⟩ := gained_written fun k hk =>
    blank_hasRoom fun sink hsink => (hsinks k hk sink hsink).2
  refine ⟨c, c', hwrite, hflush, fun k hk hsome => ?_, fun k hk => ?_⟩
  · obtain ⟨sink, hsink⟩ := Option.isSome_iff_exists.1 hsome
    obtain ⟨hgained, hpending⟩ := htables k hk
    rw [hsink] at hgained
    refine ⟨_, filed_of_gained (hsinks k hk sink hsink).1 hgained hpending, fun hnumeric => ?_⟩
    rw [List.map_map, List.map_map]
    refine ⟨List.map_congr_left fun row _ => readCells_rowLine hnumeric row,
      List.map_congr_left fun row hrow => ?_⟩
    rw [Function.comp_apply, readCells_rowLine hnumeric, Option.bind_some]
    exact readRow_values hnumeric (hrange k hnumeric row hrow)
  · by_cases hkinds : k ∈ kinds
    · have hgained := (htables k hkinds).1
      rw [hk.resolve_left (Classical.not_not.2 hkinds)] at hgained
      exact congrArg Prod.snd hgained.eq_of_absent
    · have hsame := congrArg Prod.snd (hother k hkinds)
      rw [table_start] at hsame
      exact hsame

def sampleContainers : List Container :=
  [⟨⟨none, some ⟨#[⟨3, 4, true, 10⟩, ⟨65535, 0, false, maxTime⟩], 8192, 8192, 0⟩, none, none⟩, 0, 0⟩,
    ⟨⟨some ⟨#[.wrap], 128, 128, 0⟩, none, none, none⟩, 0, 0⟩,
    ⟨⟨none, some ⟨#[⟨9, 4, true, 7⟩], 8192, 8192, 1⟩, none, some ⟨#[{}], 64, 64, 1⟩⟩, 1, 0⟩]

def sampleSinks : PerKind fun _ => Option Sink :=
  ⟨some {}, some {}, none, none⟩

theorem written_sampleContainers :
    ∃ c c' data, (start (some ⟨346, 260⟩) sampleSinks).writeAll sampleContainers = (none, c) ∧
      c.flush = (none, c') ∧
      c'.counts.get .polarity = 3 ∧ c'.counts.get .special = 1 ∧ c'.counts.get .imu6 = 0 ∧
      Filed (some ⟨346, 260⟩) .polarity sampleContainers data (c'.table .polarity) ∧
      data.map readCells =
        [some [3, 4, 1, 10], some [65535, 0, 0, 0x7fffffff], some [9, 4, 1, 0x80000007]] := by
  have hblank : ∀ k, ∀ sink ∈ sampleSinks.get k, sink = {} := by
    intro k sink hsink
    cases k with
    | special | polarity => exact (Option.some.inj hsink).symm
    | frame | imu6 => cases hsink
  have hsinks : ∀ k ∈ kinds, ∀ sink ∈ sampleSinks.get k, sink.text = "" ∧
      sink.Fits (terminated (fileLines (some ⟨346, 260⟩) k sampleContainers)).utf8ByteSize := by
    intro k _ sink hsink
    rw [hblank k sink hsink]
    exact ⟨rfl, fun _ hlimit => nomatch hlimit⟩
  have hrange : ∀ k ∈ numeric, ∀ row ∈ rows k sampleContainers, InRange k row := by decide +kernel
  obtain ⟨c, c', hwrite, hflush, hfiled, hnone⟩ := written hsinks hrange
  obtain ⟨data, hpixels, hread⟩ := hfiled .polarity (by decide) rfl
  obtain ⟨_, hspecials, -⟩ := hfiled .special (by decide) rfl
  have hvalues : (rows .polarity sampleContainers).map (fun row => some (values row.1 .polarity row.2)) =
      [some [3, 4, 1, 10], some [65535, 0, 0, 0x7fffffff], some [9, 4, 1, 0x80000007]] := by
    decide +kernel
  exact ⟨c, c', data, hwrite, hflush, hpixels.count_eq.trans hpixels.length_eq,
    hspecials.count_eq.trans hspecials.length_eq, hnone .imu6 (.inr rfl), hpixels,
    (hread (by decide)).1.trans hvalues⟩

end Csv

end EventCamera
