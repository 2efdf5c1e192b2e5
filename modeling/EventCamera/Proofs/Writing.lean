import EventCamera.Writer

/-! # Writing without loss

As long as its sink has room, a writer takes over all that is put, in order, however it portions it
out. A flush leaves nothing behind. -/

namespace EventCamera

namespace Fragments

theorem text_nil : text [] = "" :=
  String.join_nil

theorem text_cons (fragment : String) (rest : Fragments) :
    text (fragment :: rest) = fragment ++ text rest :=
  String.join_cons

theorem text_append (before after : Fragments) :
    text (before ++ after) = text before ++ text after :=
  String.join_append

end Fragments

def Sink.Fits (s : Sink) (bytes : Nat) : Prop :=
  ∀ limit ∈ s.limit, s.text.utf8ByteSize + bytes ≤ limit

theorem Sink.Fits.mono {s : Sink} {bytes more : Nat} (h : s.Fits more) (hle : bytes ≤ more) :
    s.Fits bytes :=
  fun limit hlimit => Nat.le_trans (Nat.add_le_add_left hle _) (h limit hlimit)

theorem Sink.write_of_fits {s : Sink} {text : String} (h : s.Fits text.utf8ByteSize) :
    s.write text = .ok { s with text := s.text ++ text } := by
  refine if_pos ?_
  cases hlimit : s.limit with
  | none => rfl
  | some limit => exact decide_eq_true (h limit hlimit)

namespace Writer

/-- The sink has room for so many bytes behind all that the writer took over. -/
def HasRoom (w : Writer) (bytes : Nat) : Prop :=
  ∀ limit ∈ w.sink.limit, w.text.utf8ByteSize + bytes ≤ limit

/-- A writer after it has taken over some text, on its way to the same sink. -/
structure Took (w : Writer) (text : String) (w' : Writer) : Prop where
  text_eq : w'.text = w.text ++ text
  limit_eq : w'.sink.limit = w.sink.limit

variable {w w' w'' : Writer} {text later fragment : String} {bytes : Nat}

theorem Took.nothing (w : Writer) : w.Took "" w :=
  ⟨String.append_empty.symm, rfl⟩

theorem Took.append (h : w.Took text w') (hlater : w'.Took later w'') : w.Took (text ++ later) w'' where
  text_eq := by rw [hlater.text_eq, h.text_eq, String.append_assoc]
  limit_eq := hlater.limit_eq.trans h.limit_eq

theorem Took.hasRoom (h : w.Took text w') (hroom : w.HasRoom (text.utf8ByteSize + bytes)) :
    w'.HasRoom bytes := by
  intro limit hlimit
  rw [h.limit_eq] at hlimit
  have hle := hroom limit hlimit
  rw [h.text_eq, String.utf8ByteSize_append]
  omega

theorem HasRoom.mono {more : Nat} (h : w.HasRoom more) (hle : bytes ≤ more) : w.HasRoom bytes :=
  fun limit hlimit => Nat.le_trans (Nat.add_le_add_left hle _) (h limit hlimit)

theorem size_text (w : Writer) :
    w.text.utf8ByteSize = w.sink.text.utf8ByteSize + w.pending.utf8ByteSize :=
  String.utf8ByteSize_append

theorem HasRoom.fits (h : w.HasRoom bytes) : w.sink.Fits (w.pending.utf8ByteSize + bytes) := by
  intro limit hlimit
  have hle := h limit hlimit
  rwa [size_text, Nat.add_assoc] at hle

theorem flush_of_hasRoom (h : w.HasRoom bytes) :
    ∃ w', w.flush = (none, w') ∧ w.Took "" w' ∧ w'.pending = "" := by
  have hfits : w.sink.Fits w.pending.utf8ByteSize := h.fits.mono (Nat.le_add_right ..)
  refine ⟨{ sink := { w.sink with text := w.sink.text ++ w.pending } }, ?_, ⟨?_, rfl⟩, rfl⟩
  · simp only [flush, Sink.write_of_fits hfits]
  · rw [String.append_empty]
    exact String.append_empty

/-- A fragment that does not wait goes to the sink behind a writer that keeps nothing waiting. -/
theorem accept_of_hasRoom (h : w.HasRoom fragment.utf8ByteSize)
    (hwaits : fragment.utf8ByteSize < capacity ∨ w.pending = "") :
    ∃ w', w.accept fragment = (none, w') ∧ w.Took fragment w' := by
  unfold accept
  split
  · exact ⟨_, rfl, (String.append_assoc ..).symm, rfl⟩
  · have hpending := hwaits.resolve_left ‹_›
    have hfits : w.sink.Fits fragment.utf8ByteSize := h.fits.mono (Nat.le_add_left ..)
    rw [Sink.write_of_fits hfits]
    refine ⟨_, rfl, ?_, rfl⟩
    rw [text, text, hpending, String.append_empty, String.append_empty]

theorem put_of_hasRoom (h : w.HasRoom fragment.utf8ByteSize) :
    ∃ w', w.put fragment = (none, w') ∧ w.Took fragment w' := by
  unfold put
  split
  · -- a fragment that fits behind what waits fills the whole capacity only if nothing waits
    refine accept_of_hasRoom h ?_
    rcases Nat.eq_zero_or_pos w.pending.utf8ByteSize with hempty | hpos
    · exact .inr (String.utf8ByteSize_eq_zero_iff.1 hempty)
    · exact .inl (by omega)
  · obtain ⟨w₁, hflush, htook, hpending⟩ := flush_of_hasRoom h
    rw [hflush]
    have hroom : w₁.HasRoom fragment.utf8ByteSize := htook.hasRoom (by simpa using h)
    obtain ⟨w', haccept, htook'⟩ := accept_of_hasRoom hroom (.inr hpending)
    exact ⟨w', haccept, by simpa using htook.append htook'⟩

/-- Whatever is put is taken over, as long as there is room for it. -/
theorem putAll_of_hasRoom {fragments : Fragments} (h : w.HasRoom fragments.text.utf8ByteSize) :
    ∃ w', w.putAll fragments = (none, w') ∧ w.Took fragments.text w' := by
  induction fragments generalizing w with
  | nil => exact ⟨w, rfl, .nothing w⟩
  | cons fragment rest ih =>
    rw [Fragments.text_cons, String.utf8ByteSize_append] at h
    obtain ⟨w₁, hput, htook⟩ := put_of_hasRoom (h.mono (Nat.le_add_right ..))
    obtain ⟨w', hrest, htook'⟩ := ih (htook.hasRoom h)
    refine ⟨w', ?_, ?_⟩
    · simp only [putAll, hput, hrest]
    · rw [Fragments.text_cons]
      exact htook.append htook'

end Writer

end EventCamera
