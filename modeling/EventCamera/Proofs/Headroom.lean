import EventCamera.Proofs.Fullness

/-! # Settings under which no call fails

A buffer that reaches the size limit is sealed, so that it is below the limit when the next unit comes,
and a unit adds one event or one pixel group. A buffer that may grow to twice what this comes to never
has to refuse an event. -/

namespace EventCamera

/-- Buffers are sealed by their size, and may grow to twice of what they can come to: the events that are
one short of the size limit, and the eight of a pixel group. -/
structure Settings.Spacious (s : Settings) : Prop where
  maxEvents_pos : 0 < s.maxEvents
  le_limit : 2 * (s.maxEvents + 7) ≤ s.capacityLimit
  le_memory : ∀ k : EventKind,
    2 * (s.maxEvents + 7) * k.recordSize ≤ min s.memory.later maxReservation
  spares : s.Spares

theorem Settings.spacious_default : Settings.Spacious {} :=
  ⟨by decide, by decide, fun k => by cases k <;> decide, by decide⟩

theorem Buffer.isOk_capacityFor_of_le {k : EventKind} {b : Buffer k} {more memory most : Nat}
    (hdemand : b.size + more ≤ most) (hlimit : 2 * most ≤ b.limit)
    (hmemory : 2 * most * k.recordSize ≤ min memory maxReservation) :
    (b.capacityFor more memory).isOk := by
  unfold capacityFor
  by_cases hle : min (b.size + more) maxCount ≤ b.capacity
  · rw [if_pos hle]
    rfl
  · have hgrown := doubledTo_lt (Nat.lt_of_not_le hle)
    have hrequested :
        min (doubledTo (min (b.size + more) maxCount) b.capacity) maxCount ≤ 2 * most := by omega
    have hbytes := Nat.le_trans (Nat.mul_le_mul_right k.recordSize hrequested) hmemory
    rw [if_neg hle, grant, if_pos ⟨Nat.le_trans hrequested hlimit, hbytes⟩]
    rfl

namespace Decoder

variable {dev : Device} {d : Decoder dev} {s : Settings}

theorem isOk_apply_of_room (h : ∀ k, (d.collector.capacityFor k 1).isOk)
    (hgroup : (d.collector.capacityFor .polarity 8).isOk) (code : Code) :
    (apply code d).result.isOk := by
  by_cases hcode : code.isGroup
  · cases code with
    | group x base mask on =>
      obtain ⟨capacity, hcapacity⟩ := exists_of_isOk hgroup
      exact isOk_pushGroup hcapacity x base mask on
    | tick | wrap | reset | pixel | special | composite => cases hcode
  · exact isOk_apply h (Bool.eq_false_iff.2 hcode)

namespace Unfilled

/-- There is room for one more pixel group in every buffer. -/
theorem isOk_capacityFor (h : d.Unfilled s) (hs : s.Spacious) {more : Nat} (hmore : more ≤ 8)
    (k : EventKind) : (d.collector.capacityFor k more).isOk := by
  have hsize : (d.buffer k).size < d.collector.sizeLimit :=
    Collector.size_lt_of_not_isFull h.not_isFull (h.sizeLimit_eq ▸ hs.maxEvents_pos) k
  have hdemand : (d.buffer k).size + more ≤ s.maxEvents + 7 := by
    have := h.sizeLimit_eq
    omega
  exact Buffer.isOk_capacityFor_of_le hdemand ((h.supplied k).2 ▸ hs.le_limit)
    (h.memory_eq ▸ hs.le_memory k)

end Unfilled

section Camera

variable {c : Camera} {d : Decoder c.device}

/-- No step fails. -/
theorem Unfilled.isOk_make (h : d.Unfilled s) (hs : s.Spacious) (m : Move) :
    (d.make m).result.isOk := by
  have hreplaceable := h.replaceable hs.spares
  cases m with
  | unit unit =>
    rw [hreplaceable.isOk_make_iff]
    -- only the last code of a unit adds anything, and it finds the buffers as they were before the unit
    obtain ⟨grouped, hbrief, -⟩ := c.exists_brief d.device unit
    obtain ⟨d', code?, hsame, hmemory, -, -, hresult⟩ :=
      exists_forEach_brief hbrief { d with device := (c.device.classify d.device unit).state }
    have hroom {more : Nat} (hmore : more ≤ 8) (k : EventKind) :
        (d'.collector.capacityFor k more).isOk := by
      rw [capacityFor_congr (hsame k) hmemory]
      exact h.isOk_capacityFor hs hmore k
    unfold applyUnit
    rw [hresult]
    cases code? with
    | none => rfl
    | some code => exact isOk_apply_of_room (hroom (by decide)) (hroom (by decide) _) code
  | rest =>
    simp only [Decoder.make, settleRest]
    by_cases hpending : d.pending = 0
    · rw [if_pos hpending]
      rfl
    · rw [if_neg hpending]
      obtain ⟨taken, htaken⟩ := exists_of_isOk (hreplaceable.isOk_takeOut none)
      rw [htaken]
      rfl

end Camera

end Decoder

namespace Ledger

variable {c : Camera} {s : Settings} {b b' : Ledger c.device}

theorem succeeds_of_spacious (h : b.decoder.Unfilled s) (hs : s.Spacious) (moves : List Move) :
    b.Succeeds moves := by
  induction moves generalizing b with
  | nil => trivial
  | cons m moves ih =>
    refine ⟨h.isOk_make hs m, ih ?_⟩
    rw [b.decoder_advance]
    exact h.make hs.spares m

theorem isOk_call (h : b.decoder.Unfilled s) (hs : s.Spacious) {call : Call} {steps : List Step}
    {result : Except DecodeError Unit} (htrace : Trace (b.call call) steps (b', result)) :
    result.isOk := by
  cases call with
  | decode bytes => exact isOk_decode htrace (succeeds_of_spacious h hs _)
  | flush =>
    obtain ⟨-, rfl⟩ := trace_flush htrace
    have hok : b.decoder.settleRest.result.isOk := h.isOk_make hs .rest
    obtain ⟨sealing?, hresult⟩ := exists_of_isOk hok
    rw [hresult]
    rfl

/-- No call of a session fails. -/
theorem isOk_session (h : b.decoder.Unfilled s) (hs : s.Spacious) {calls : List Call}
    {steps : List Step} {results : List (Except DecodeError Unit)}
    (htrace : Trace (session call calls b) steps (b', results)) : ∀ r ∈ results, r.isOk := by
  induction calls generalizing b steps results with
  | nil =>
    cases htrace
    exact List.forall_mem_nil _
  | cons first calls ih =>
    obtain ⟨⟨b₁, result⟩, before, _, hcall, hrest, rfl⟩ := htrace.of_bind
    obtain ⟨⟨b₂, later⟩, after, _, hsession, hend, rfl⟩ := hrest.of_bind
    cases hend
    obtain ⟨moves, -, hcourse, -⟩ := trace_call hcall
    have hnext : b₁.decoder.Unfilled s := by
      rw [hcourse.end_eq]
      exact (unfilled_run h hs.spares moves).count _
    exact List.forall_mem_cons.2 ⟨isOk_call h hs hcall, ih hnext hsession⟩

end Ledger

/-- Under such settings no call of a camera fails, whatever it reads and whatever becomes of the
containers. -/
theorem isOk_of_spacious {c : Camera} {settings : Settings} (hs : settings.Spacious)
    {d d' : Decoder c.device} {calls : List Call} {x x' : Exchange} {log : List Occurrence}
    {results : List (Except DecodeError Unit)} (hstart : Decoder.start c.device settings = .ok d)
    (h : Execution (session Decoder.call calls d) x log (d', results) x') :
    ∀ r ∈ results, r.isOk := by
  obtain ⟨b, hb, -⟩ := Ledger.exists_execution { decoder := d } h
  exact Ledger.isOk_session (Decoder.unfilled_start hstart) hs hb.trace

end EventCamera
