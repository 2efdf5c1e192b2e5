import EventCamera.Proofs.Cells

/-! # What is written to tables

A container adds to every table that there is a line for each of its events, and to the count of the
table as many. Kinds without a table stay without one and count nothing. -/

namespace EventCamera

/-! ## A change of one table -/

theorem PerKind.update_eq {β : EventKind → Type} {α : Type} (p : PerKind β) (k : EventKind)
    (f : β k → α × β k) : p.update k f = ((f (p.get k)).1, p.modify k fun _ => (f (p.get k)).2) := by
  cases k <;> rfl

namespace Csv

/-- The writer of a kind, if there is one, and how many events it has written. -/
abbrev Table : Type := Option Writer × Nat

def table (c : Csv) (k : EventKind) : Table :=
  (c.writers.get k, c.counts.get k)

/-- A table with a writer has room for so many more bytes. -/
def Table.HasRoom (bytes : Nat) (t : Table) : Prop :=
  ∀ w ∈ t.1, w.HasRoom bytes

/-- Some text with a number of lines is added to a table, if there is a writer for it. -/
inductive Table.Gained (text : String) (added : Nat) : Table → Table → Prop where
  | absent (count) : Gained text added (none, count) (none, count)
  | present {w w' count} : w.Took text w' → Gained text added (some w, count) (some w', count + added)

namespace Table

variable {t t₁ t₂ t₃ : Table} {text later : String} {added more bytes : Nat}

theorem Gained.nothing (t : Table) : Gained "" 0 t t := by
  rcases t with ⟨_ | w, count⟩
  · exact .absent count
  · exact .present (.nothing w)

theorem Gained.eq_of_absent {count : Nat} (h : Gained text added (none, count) t) :
    t = (none, count) := by
  cases h
  rfl

theorem Gained.of_rel {w? w'? : Option Writer} (h : Option.Rel (Writer.Took · text ·) w? w'?)
    (count : Nat) : Gained text added (w?, count) (w'?, count + if w'?.isSome then added else 0) := by
  cases h with
  | none => exact .absent count
  | some htook => exact .present htook

theorem Gained.append (h : Gained text added t₁ t₂) (hlater : Gained later more t₂ t₃) :
    Gained (text ++ later) (added + more) t₁ t₃ := by
  cases h with
  | absent =>
    cases hlater
    exact .absent _
  | present htook =>
    cases hlater with
    | present hlater =>
      rw [Nat.add_assoc]
      exact .present (htook.append hlater)

theorem HasRoom.mono {more : Nat} (h : t.HasRoom more) (hle : bytes ≤ more) : t.HasRoom bytes :=
  fun w hw => (h w hw).mono hle

theorem Gained.hasRoom (h : Gained text added t₁ t₂) (hroom : t₁.HasRoom (text.utf8ByteSize + bytes)) :
    t₂.HasRoom bytes := by
  cases h with
  | absent => exact fun _ hw => nomatch hw
  | present htook => exact fun _ hw => Option.some.inj hw ▸ htook.hasRoom (hroom _ rfl)

end Table

variable {c c' : Csv}

/-- A change that the writer of a kind comes through, if there is one, leaves the other kinds alone. -/
theorem withWriter_eq {k : EventKind} {f : Writer → Option StorageError × Writer}
    {Done : Writer → Writer → Prop} (hf : ∀ w ∈ c.writers.get k, ∃ w', f w = (none, w') ∧ Done w w') :
    ∃ writers, c.withWriter k f = (none, { c with writers }) ∧
      Option.Rel Done (c.writers.get k) (writers.get k) ∧
      ∀ l ≠ k, writers.get l = c.writers.get l := by
  unfold withWriter
  rw [PerKind.update_eq]
  cases hw : c.writers.get k with
  | none =>
    refine ⟨c.writers.modify k fun _ => none, rfl, ?_, fun _ => PerKind.get_modify_of_ne _ _⟩
    rw [PerKind.get_modify_self]
    exact .none
  | some w =>
    obtain ⟨w', hdone, hwritten⟩ := hf w hw
    simp only [hdone]
    refine ⟨c.writers.modify k fun _ => some w', rfl, ?_, fun _ => PerKind.get_modify_of_ne _ _⟩
    rw [PerKind.get_modify_self]
    exact .some hwritten

/-- Doing something to tables that only changes each one goes through all of them. -/
theorem forEachTable_eq {f : EventKind → Csv → Option StorageError × Csv}
    {Ready : EventKind → Table → Prop} {Done : EventKind → Table → Table → Prop}
    (hf : ∀ k c, Ready k (c.table k) → ∃ c', f k c = (none, c') ∧ Done k (c.table k) (c'.table k) ∧
      ∀ l ≠ k, c'.table l = c.table l) {ks : List EventKind} (hks : ks.Nodup)
    (hready : ∀ k ∈ ks, Ready k (c.table k)) :
    ∃ c', forEachTable f ks c = (none, c') ∧ (∀ k ∈ ks, Done k (c.table k) (c'.table k)) ∧
      ∀ k ∉ ks, c'.table k = c.table k := by
  induction ks generalizing c with
  | nil => exact ⟨c, rfl, List.forall_mem_nil _, fun _ _ => rfl⟩
  | cons k ks ih =>
    obtain ⟨hk, hks⟩ := List.nodup_cons.1 hks
    obtain ⟨hfirst, hrest⟩ := List.forall_mem_cons.1 hready
    obtain ⟨c₁, hf₁, hdone, hother⟩ := hf k c hfirst
    have hsame : ∀ l ∈ ks, c₁.table l = c.table l := fun l hl =>
      hother l fun heq => hk (heq ▸ hl)
    obtain ⟨c', hc', hdones, hothers⟩ := ih hks fun l hl => hsame l hl ▸ hrest l hl
    refine ⟨c', ?_, ?_, ?_⟩
    · simp only [forEachTable, hf₁, hc']
    · refine List.forall_mem_cons.2 ⟨?_, fun l hl => ?_⟩
      · rw [hothers k hk]
        exact hdone
      · rw [← hsame l hl]
        exact hdones l hl
    · intro l hl
      obtain ⟨hne, hl⟩ := not_or.1 (mt List.mem_cons.2 hl)
      rw [hothers l hl, hother l hne]

/-! ## Rows -/

def rowsOf (k : EventKind) (container : Container) : List (Int × k.Record) :=
  (container.buffer? k).elim [] fun b => b.events.toList.map (b.epoch, ·)

def rows (k : EventKind) (containers : List Container) : List (Int × k.Record) :=
  containers.flatMap (rowsOf k)

theorem rows_cons (k : EventKind) (container : Container) (containers : List Container) :
    rows k (container :: containers) = rowsOf k container ++ rows k containers :=
  List.flatMap_cons

def rowLine (k : EventKind) (row : Int × k.Record) : String :=
  ",".intercalate ((cells row.1 k row.2).map Fragments.text)

def terminated (lines : List String) : String :=
  String.join (lines.map (· ++ "\n"))

theorem terminated_append (lines later : List String) :
    terminated (lines ++ later) = terminated lines ++ terminated later := by
  rw [terminated, List.map_append, String.join_append]
  rfl

/-- The lines of events with their ends. -/
def rowsText (k : EventKind) (rows : List (Int × k.Record)) : String :=
  terminated (rows.map (rowLine k))

theorem rowsText_append {k : EventKind} (before after : List (Int × k.Record)) :
    rowsText k (before ++ after) = rowsText k before ++ rowsText k after := by
  rw [rowsText, List.map_append, terminated_append]
  rfl

theorem text_lines {k : EventKind} (b : Buffer k) :
    (lines b).text = rowsText k (b.events.toList.map (b.epoch, ·)) := by
  rw [lines]
  induction b.events.toList with
  | nil => rfl
  | cons event events ih =>
    rw [List.flatMap_cons, Fragments.text_append, ih, text_line]
    exact String.join_cons.symm

/-! ## Containers and flushes -/

theorem writeKind_eq {k : EventKind} {container : Container}
    (h : (c.table k).HasRoom (rowsText k (rowsOf k container)).utf8ByteSize) :
    ∃ c', writeKind container k c = (none, c') ∧
      Table.Gained (rowsText k (rowsOf k container)) (rowsOf k container).length (c.table k)
        (c'.table k) ∧
      ∀ l ≠ k, c'.table l = c.table l := by
  unfold rowsOf writeKind at *
  cases hb : container.buffer? k with
  | none => exact ⟨c, rfl, .nothing _, fun _ _ => rfl⟩
  | some b =>
    rw [hb, Option.elim_some, ← text_lines] at h
    obtain ⟨writers, hwrite, hrel, hother⟩ := withWriter_eq fun w hw => Writer.putAll_of_hasRoom (h w hw)
    have hsize : (b.events.toList.map (b.epoch, ·)).length = b.size := by
      rw [List.length_map, Array.length_toList, Buffer.size]
    simp only [hwrite, Option.elim_some]
    rw [hsize, ← text_lines]
    refine ⟨_, rfl, ?_, fun l hl => ?_⟩
    · rw [table, table, PerKind.get_modify_self]
      exact .of_rel hrel _
    · exact Prod.ext (hother l hl) (PerKind.get_modify_of_ne _ _ hl)

/-- The rows of a container are added to all tables. -/
theorem write_eq {container : Container}
    (h : ∀ k ∈ kinds, (c.table k).HasRoom (rowsText k (rowsOf k container)).utf8ByteSize) :
    ∃ c', c.write container = (none, c') ∧
      (∀ k ∈ kinds, Table.Gained (rowsText k (rowsOf k container)) (rowsOf k container).length
        (c.table k) (c'.table k)) ∧
      ∀ k ∉ kinds, c'.table k = c.table k :=
  forEachTable_eq (f := writeKind container) (fun _ _ h => writeKind_eq h) (by decide) h

def writeAll : Csv → List Container → Option StorageError × Csv
  | c, [] => (none, c)
  | c, container :: rest =>
    match c.write container with
    | (none, c) => c.writeAll rest
    | failed => failed

theorem writeAll_eq {containers : List Container}
    (h : ∀ k ∈ kinds, (c.table k).HasRoom (rowsText k (rows k containers)).utf8ByteSize) :
    ∃ c', c.writeAll containers = (none, c') ∧
      (∀ k ∈ kinds, Table.Gained (rowsText k (rows k containers)) (rows k containers).length
        (c.table k) (c'.table k)) ∧
      ∀ k ∉ kinds, c'.table k = c.table k := by
  induction containers generalizing c with
  | nil => exact ⟨c, rfl, fun _ _ => .nothing _, fun _ _ => rfl⟩
  | cons container containers ih =>
    simp only [rows_cons, rowsText_append, List.length_append, String.utf8ByteSize_append] at h ⊢
    obtain ⟨c₁, hwrite, hfirst, hother⟩ := write_eq fun k hk => (h k hk).mono (Nat.le_add_right ..)
    obtain ⟨c', hall, hrest, hothers⟩ := ih fun k hk => (hfirst k hk).hasRoom (h k hk)
    refine ⟨c', ?_, fun k hk => (hfirst k hk).append (hrest k hk),
      fun k hk => (hothers k hk).trans (hother k hk)⟩
    simp only [writeAll, hwrite, hall]

/-- A flush adds nothing to a table, and leaves nothing that waits. -/
structure Table.Flushed (t t' : Table) : Prop where
  gained : Table.Gained "" 0 t t'
  pending_eq : ∀ w ∈ t'.1, w.pending = ""

theorem flushKind_eq {k : EventKind} (h : (c.table k).HasRoom 0) :
    ∃ c', flushKind k c = (none, c') ∧ (c.table k).Flushed (c'.table k) ∧
      ∀ l ≠ k, c'.table l = c.table l := by
  obtain ⟨writers, hflush, hrel, hother⟩ := withWriter_eq fun w hw => Writer.flush_of_hasRoom (h w hw)
  refine ⟨_, hflush, ?_, fun l hl => Prod.ext (hother l hl) rfl⟩
  unfold table
  generalize c.writers.get k = w?, writers.get k = w'? at hrel ⊢
  cases hrel with
  | none => exact ⟨.absent _, fun _ hw => nomatch hw⟩
  | some hdone => exact ⟨.present hdone.1, fun _ hw => Option.some.inj hw ▸ hdone.2⟩

theorem flush_eq (h : ∀ k ∈ kinds, (c.table k).HasRoom 0) :
    ∃ c', c.flush = (none, c') ∧ (∀ k ∈ kinds, (c.table k).Flushed (c'.table k)) ∧
      ∀ k ∉ kinds, c'.table k = c.table k :=
  forEachTable_eq (f := flushKind) (fun _ _ h => flushKind_eq h) (by decide) h

end Csv

end EventCamera
