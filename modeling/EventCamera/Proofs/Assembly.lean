import EventCamera.Proofs.Conservation
import EventCamera.Proofs.Records
import EventCamera.Proofs.Trail
import EventCamera.Wire.Table

/-! # Where composite events come from

A composite event is put together in a stretch of units, from its start marker to its end marker. No reset
and no end of an epoch falls into the stretch, and the event is made of nothing else than the steps in
it. -/

namespace EventCamera

/-- A stretch of a trail, from a start marker to an end marker. -/
structure Stretch where
  front : List Happened
  start : Happened
  startTime : Int
  inner : List Happened
  finish : Happened
  endTime : Int
  back : List Happened

namespace Stretch

def trail (s : Stretch) : List Happened :=
  s.front ++ s.start :: (s.inner ++ s.finish :: s.back)

end Stretch

/-! ## Completed events -/

theorem Mark.Leads.alone_of_turns {m : Mark} {codes body : List Code} (h : m.Leads codes body)
    {code : Code} (hmem : code ∈ codes) (hturns : code.turns = true) : codes = [code] := by
  have hbody : code ∉ body := by
    intro hcode
    have hplain := h.plain code hcode
    cases code with
    | wrap | reset => exact hplain
    | tick | pixel | group | special | composite => cases hturns
  rw [h.codes_eq] at hmem ⊢
  have hmark : code ∈ m.codes := (List.mem_append.1 hmem).resolve_right hbody
  cases m with
  | silent => cases hmark
  | tick ticks =>
    obtain rfl := List.mem_singleton.1 hmark
    cases hturns
  | turns count =>
    obtain rfl := List.mem_singleton.1 hmark
    rw [h.alone rfl]
    rfl
  | reset =>
    obtain rfl := List.mem_singleton.1 hmark
    rw [h.alone rfl]
    rfl

def Scratch.samplesKept (g : Geometry) : Scratch.samples.KeptBy (Wire.DvXplorer.device g) where
  record := Wire.DvXplorer.State.imu
  ignoring_initial := rfl
  record_classify s unit := by
    match unit with
    | _ :: _ :: _ => rfl
    | [] | [_] => rfl
  compose_taken _ _ _ _ _ := ⟨rfl, rfl⟩
  compose_passed _ _ _ _ h := nomatch h
  record_invalidate _ := rfl
  alone s unit code hmem hturns := by
    obtain ⟨body, hleads⟩ := Wire.DvXplorer.leads g s unit
    exact hleads.alone_of_turns hmem hturns

def Wire.Table.Entry.code? : Entry → Option Code
  | .code c => some c
  | .stop => none

namespace CompositeEvent

/-- The scratch record that an event comes of. -/
def scratch : CompositeEvent → Scratch
  | .imu6 _ => .samples
  | .frame _ => .images

end CompositeEvent

end EventCamera
