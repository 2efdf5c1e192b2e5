import EventCamera.Csv
import EventCamera.Proofs.Writing

/-! # Lines and cells

A text that was put together with separators is cut up at them again, if its parts have none of
their own. No cell of a table has one, and a number in a cell is read back as it was. -/

namespace EventCamera

def cut (separator : Char) (text : String) : List String :=
  (text.split separator).toList.map String.Slice.copy

section Cut

variable {separator : Char}

theorem cut_eq (text : String) :
    cut separator text = (text.toList.splitOn separator).map String.ofList :=
  String.toList_split_char

theorem cut_intercalate {parts : List String} (h : ∀ part ∈ parts, separator ∉ part.toList)
    (hsome : parts ≠ []) : cut separator ((String.singleton separator).intercalate parts) = parts :=
  (String.toList_split_intercalate h).trans (if_neg hsome)

/-- Parts that each end in a separator are found again, with nothing behind the last one. -/
theorem cut_terminated {parts : List String} (h : ∀ part ∈ parts, separator ∉ part.toList) :
    cut separator (String.join (parts.map (· ++ String.singleton separator))) = parts ++ [""] := by
  rw [cut_eq, String.toList_join]
  induction parts with
  | nil => rfl
  | cons part parts ih =>
    obtain ⟨hfirst, hrest⟩ := List.forall_mem_cons.1 h
    rw [List.map_cons, List.flatMap_cons, String.toList_append, String.toList_singleton,
      List.append_assoc, List.singleton_append, List.splitOn_append_cons_self_of_not_mem hfirst,
      List.map_cons, ih hrest, String.ofList_toList, List.cons_append]

end Cut

namespace Fragments

def Plain (fragments : Fragments) : Prop :=
  ∀ fragment ∈ fragments, ∀ c ∈ fragment.toList, c ≠ ',' ∧ c ≠ '\n'

theorem Plain.text {fragments : Fragments} (h : fragments.Plain) :
    ∀ c ∈ fragments.text.toList, c ≠ ',' ∧ c ≠ '\n' := by
  intro c hc
  rw [Fragments.text, String.toList_join] at hc
  obtain ⟨fragment, hfragment, hmem⟩ := List.mem_flatMap.1 hc
  exact h fragment hfragment c hmem

theorem plain_of_isDigit {c : Char} (h : c.isDigit) : c ≠ ',' ∧ c ≠ '\n' := by
  constructor <;> rintro rfl <;> exact absurd h (by decide)

theorem plain_toDigits (n : Nat) : ∀ c ∈ Nat.toDigits 10 n, c ≠ ',' ∧ c ≠ '\n' := fun _ hc =>
  plain_of_isDigit (Nat.isDigit_of_mem_toDigits (by decide) (by decide) hc)

theorem plain_ofNat (n : Nat) : (ofNat n).Plain := by
  refine List.forall_mem_singleton.2 ?_
  rw [Nat.toList_repr]
  exact plain_toDigits n

theorem plain_signed (negative : Bool) {fragments : Fragments} (h : fragments.Plain) :
    (signed negative fragments).Plain := by
  cases negative with
  | false => exact h
  | true => exact List.forall_mem_cons.2 ⟨by simp, h⟩

theorem plain_ofInt (i : Int) : (ofInt i).Plain :=
  plain_signed _ (plain_ofNat _)

theorem plain_zeros (count : Nat) : (zeros count).Plain := by
  unfold zeros
  split
  · exact List.forall_mem_nil _
  · refine List.forall_mem_singleton.2 fun c hc => ?_
    rw [String.toList_ofList] at hc
    rw [List.eq_of_mem_replicate hc]
    decide

theorem plain_ofList {cs : List Char} (h : ∀ c ∈ cs, c ≠ ',' ∧ c ≠ '\n') : Plain [.ofList cs] := by
  refine List.forall_mem_singleton.2 fun c hc => ?_
  rw [String.toList_ofList] at hc
  exact h c hc

theorem Plain.append {before after : Fragments} (h : before.Plain) (hafter : after.Plain) :
    Plain (before ++ after) :=
  List.forall_mem_append.2 ⟨h, hafter⟩

theorem plain_ofDecimal (d : Decimal) : (ofDecimal d).Plain := by
  have hdigits := plain_toDigits d.coefficient
  unfold ofDecimal
  dsimp only
  split
  · have hpoint : Plain ["0."] := List.forall_mem_singleton.2 (by simp)
    exact hpoint.append ((plain_zeros _).append (plain_ofList hdigits))
  · split
    · have hpoint : Plain ["."] := List.forall_mem_singleton.2 (by simp)
      exact (plain_ofList fun c hc => hdigits c (List.mem_of_mem_take hc)).append
        (hpoint.append (plain_ofList fun c hc => hdigits c (List.mem_of_mem_drop hc)))
    · exact (plain_ofList hdigits).append (plain_zeros _)

theorem plain_ofFloat32 (x : Float32) : (ofFloat32 x).Plain := by
  have hwords : ∀ word ∈ ["inf", "NaN", "0"], Plain [word] := by 
    simp [Plain]
  unfold ofFloat32
  dsimp only
  split
  · split
    · exact plain_signed _ (hwords _ (by simp))
    · exact hwords _ (by simp)
  · split
    · split
      · exact plain_signed _ (hwords _ (by simp))
      · exact plain_signed _ (plain_ofDecimal _)
    · exact plain_signed _ (plain_ofDecimal _)

theorem text_ofNat (n : Nat) : (ofNat n).text = n.repr := by
  rw [ofNat, text_cons, text_nil, String.append_empty]

theorem text_ofInt (i : Int) : (ofInt i).text = i.repr := by
  cases i with
  | ofNat n => exact text_ofNat n
  | negSucc n =>
    rw [ofInt, decide_eq_true (Int.negSucc_lt_zero n)]
    exact text_cons "-" (ofNat (n + 1)) |>.trans (congrArg _ (text_ofNat _))

end Fragments

namespace Csv

theorem text_line (cells : List Fragments) :
    (line cells).text = ",".intercalate (cells.map Fragments.text) ++ "\n" := by
  have hcells : Fragments.text (cells.intersperse [","]).flatten =
      ",".intercalate (cells.map Fragments.text) := by
    induction cells with
    | nil => rfl
    | cons cell cells ih =>
      cases cells with
      | nil =>
        rw [List.map_singleton, String.intercalate_singleton]
        exact congrArg Fragments.text (List.append_nil cell)
      | cons next cells =>
        have hcomma : Fragments.text [","] = "," :=
          (Fragments.text_cons "," []).trans String.append_empty
        rw [List.intersperse_cons_cons, List.flatten_cons, List.flatten_cons, Fragments.text_append,
          Fragments.text_append, ih, hcomma, ← String.append_assoc]
        exact String.intercalate_cons_cons.symm
  rw [line, Fragments.text_append, hcells, Fragments.text_cons, Fragments.text_nil, String.append_empty]

end Csv

end EventCamera
