import EventCamera.Proofs.Reach
import EventCamera.Proofs.Turns

/-! # What a read seals

A worker that reads decodes the whole units that it has got then. The containers that these seal do not
depend on what becomes of them, and there are two for each unit at most. -/

namespace EventCamera

variable {dev : Device} {t : Transport}

/-! ## How many containers there are -/

theorem Settled.length_handedOn_le (s : Settled dev) : s.handedOn.length ≤ 2 := by
  unfold handedOn
  cases s.sealing? with
  | none => exact Nat.zero_le _
  | some sealing =>
    have hreset : sealing.reset?.toList.length ≤ 1 := by cases sealing.reset? <;> simp
    have hdata : (if sealing.data.isEmpty then [] else [Sealed.data sealing.data]).length ≤ 1 := by
      split <;> simp
    simp only [Option.elim_some, Sealing.handedOn, List.length_append, List.length_map]
    omega

theorem Decoder.length_handedOn_settleRest_le (d : Decoder dev) :
    d.settleRest.handedOn.length ≤ 1 := by
  unfold settleRest
  split
  · exact Nat.zero_le _
  · cases htaken : d.collector.takeOut none with
    | error e => exact Nat.zero_le _
    | ok r =>
      obtain ⟨sealing, collector⟩ := r
      have hreset : sealing.reset? = none := by
        rw [Sealing.reset?, (Collector.takeOut_ok htaken).2]
        rfl
      simp only [Settled.handedOn, Settled.sealing?, Option.elim_some, Sealing.handedOn, hreset,
        Option.toList_none, List.map_nil, List.append_nil]
      split <;> simp

theorem Ledger.length_sealed_run_le (b : Ledger dev) (moves : List Move) :
    (b.run moves).sealed.length ≤ b.sealed.length + 2 * moves.length := by
  induction moves generalizing b with
  | nil => exact Nat.le_refl _
  | cons m moves ih =>
    have hlater := ih (b.advance m)
    have hnow := (b.decoder.make m).length_handedOn_le
    rw [sealed_advance, List.length_append] at hlater
    rw [List.length_cons]
    exact Nat.le_trans hlater (by omega)

theorem Decoder.length_units_le (width : Nat) (bytes : List UInt8) :
    max width 1 * (units width bytes).length ≤ bytes.length := by
  fun_induction units width bytes with
  | case1 bytes unit hunit ih =>
    have hle : max width 1 ≤ bytes.length := hunit ▸ List.length_take_le' ..
    rw [List.length_drop] at ih
    rw [List.length_cons, Nat.mul_succ]
    omega
  | case2 => exact Nat.zero_le _

/-! ## A worker that reads -/

namespace Worker

variable {w w' : Worker dev t} {steps : List Step} {turn : Turn dev t}

/-- The containers that a worker seals when it receives bytes, as far as its units do not fail. -/
def sealedBy (w : Worker dev t) (bytes : List UInt8) : List Sealed :=
  let whole := (partUnits dev.unitWidth (w.carried ++ bytes)).1
  let b : Ledger dev := { decoder := w.decoder }
  (b.run (b.reach (Call.moves dev.unitWidth (.decode whole)))).sealed

/-- The containers that the next read of a worker seals. At the end of the transport, the rest is
sealed. -/
def sealing (w : Worker dev t) : List Sealed :=
  match w.reading with
  | .data [] | .lost => w.decoder.settleRest.handedOn
  | .data bytes => w.sealedBy bytes
  | .unavailable | .crashed => []

theorem length_reading_le {bytes : List UInt8} (h : w.reading = .data bytes) :
    bytes.length ≤ w.transferSize - w.carried.length :=
  t.length_le _ _ _ h

theorem length_sealedBy_le (hwidth : 0 < dev.unitWidth) (bytes : List UInt8) :
    (w.sealedBy bytes).length ≤ 2 * ((w.carried.length + bytes.length) / dev.unitWidth) := by
  generalize hwhole : (partUnits dev.unitWidth (w.carried ++ bytes)).1 = whole
  let b : Ledger dev := { decoder := w.decoder }
  let moves := Call.moves dev.unitWidth (.decode whole)
  have hsealed : (w.sealedBy bytes).length ≤ 2 * (b.reach moves).length := by
    have hrun := b.length_sealed_run_le (b.reach moves)
    rw [List.length_nil, Nat.zero_add] at hrun
    rw [sealedBy, hwhole]
    exact hrun
  have hreach : (b.reach moves).length ≤ (Decoder.units dev.unitWidth whole).length := by
    rw [← List.length_map (f := Move.unit)]
    exact (b.reach_prefix moves).length_le
  have hlength : whole.length ≤ w.carried.length + bytes.length := by
    rw [← hwhole, partUnits_fst, ← List.length_append]
    exact List.length_take_le' ..
  have hunits : (Decoder.units dev.unitWidth whole).length ≤
      (w.carried.length + bytes.length) / dev.unitWidth := by
    have hle := Decoder.length_units_le dev.unitWidth whole
    rw [Nat.max_eq_left hwidth, Nat.mul_comm] at hle
    exact (Nat.le_div_iff_mul_le hwidth).2 (Nat.le_trans hle hlength)
  omega

/-- However many containers a read seals, there are two for each unit that a transfer has room for, at
most. -/
theorem length_sealing_le (hwidth : 0 < dev.unitWidth) (hcarried : w.carried.length ≤ w.transferSize)
    (hle : dev.unitWidth ≤ w.transferSize) :
    w.sealing.length ≤ 2 * (w.transferSize / dev.unitWidth) := by
  have hone : 1 ≤ w.transferSize / dev.unitWidth := Nat.div_pos hle hwidth
  have hrest := w.decoder.length_handedOn_settleRest_le
  unfold sealing
  split
  · omega
  · omega
  · rename_i bytes _ hreading
    have hbytes := length_reading_le hreading
    refine Nat.le_trans (length_sealedBy_le hwidth bytes) (Nat.mul_le_mul_left 2 ?_)
    exact Nat.div_le_div_right (by omega)
  · exact Nat.zero_le _
  · exact Nat.zero_le _

/-- What receiving bytes leaves as it was, and the bytes that it carries on. -/
structure Received (w : Worker dev t) (bytes : List UInt8) (w' : Worker dev t) : Prop where
  transferSize_eq : w'.transferSize = w.transferSize
  paced_eq : w'.paced = w.paced
  carried_eq : w'.carried = (partUnits dev.unitWidth (w.carried ++ bytes)).2

theorem received_of_trace {bytes : List UInt8} (h : Trace (w.receive bytes) steps w') :
    w.Received bytes w' := by
  unfold receive at h
  split at h
  rename_i whole carried hparts
  have hcarried : carried = (partUnits dev.unitWidth (w.carried ++ bytes)).2 := by rw [hparts]
  split at h
  · cases h
    exact ⟨rfl, rfl, hcarried⟩
  · obtain ⟨⟨d, result⟩, steps, _, hdecode, hend, rfl⟩ := h.of_bind
    cases hend
    exact ⟨rfl, rfl, hcarried⟩

/-- Receiving bytes decodes the whole units, unless there are none. -/
theorem decodes_of_trace {bytes : List UInt8} (h : Trace (w.receive bytes) steps w') :
    ((partUnits dev.unitWidth (w.carried ++ bytes)).1 = [] ∧ steps = []) ∨
      ∃ r, Trace (w.decoder.decode (partUnits dev.unitWidth (w.carried ++ bytes)).1) steps r := by
  unfold receive at h
  split at h
  rename_i whole carried hparts
  rw [hparts]
  split at h
  · rename_i hempty
    cases h
    exact .inl ⟨List.isEmpty_iff.1 hempty, rfl⟩
  · obtain ⟨r, steps, _, hdecode, hend, rfl⟩ := h.of_bind
    cases hend
    rw [List.append_nil]
    exact .inr ⟨r, hdecode⟩

/-- What receiving bytes hands on is what the read seals, up to where it was cut short. -/
theorem sealed_of_receive {bytes : List UInt8} (h : Trace (w.receive bytes) steps w') :
    (handovers steps).map Handover.sealed <+: w.sealedBy bytes ∧
      (Steady steps → (handovers steps).map Handover.sealed = w.sealedBy bytes) := by
  rcases decodes_of_trace h with ⟨hnone, rfl⟩ | ⟨⟨d, result⟩, hdecode⟩
  · have hunits : Decoder.units dev.unitWidth [] = [] := Decoder.units_of_lt (Nat.le_max_right ..)
    have hsealed : w.sealedBy bytes = [] := by
      simp only [sealedBy, hnone, Call.moves, hunits, List.map_nil, Ledger.reach, Ledger.run,
        List.foldl_nil]
    rw [hsealed]
    exact ⟨List.prefix_rfl, fun _ => rfl⟩
  · obtain ⟨b', hcall, -⟩ := ({ decoder := w.decoder } : Ledger dev).exists_trace (c := .decode _) hdecode
    obtain ⟨decoded, -, hreach, hcourse⟩ := Ledger.exists_decoded hcall
    refine ⟨?_, fun hsteady => ?_⟩
    · rw [hcourse.map_sealed rfl]
      exact Ledger.sealed_run_prefix hreach
    · exact (Ledger.trace_call_of_steady hcall hsteady).1.map_sealed rfl

/-- A worker that acts on its read hands on what the read seals, in this order and up to where it was
cut short. -/
theorem sealed_of_respond (h : Trace (w.afterRead.respond w.reading) steps turn) :
    (handovers steps).map Handover.sealed <+: w.sealing ∧
      (Steady steps → (handovers steps).map Handover.sealed = w.sealing) := by
  have hending (h : Trace w.afterRead.ending steps turn) :
      (handovers steps).map Handover.sealed = w.decoder.settleRest.handedOn := by
    obtain ⟨w', steps, _, hwind, hdone, rfl⟩ := h.of_bind
    cases hdone
    obtain ⟨flushing, rfl, -, hflushing⟩ := trace_windUp_steps hwind
    have hclosing : handovers closing = [] := rfl
    rw [List.append_nil, handovers_append, hclosing, List.append_nil]
    exact hflushing
  unfold sealing
  cases hreading : w.reading with
  | unavailable | crashed =>
    rw [hreading] at h
    cases h
    exact ⟨List.prefix_rfl, fun _ => rfl⟩
  | lost =>
    rw [hreading] at h
    have hsealed := hending h
    exact ⟨hsealed ▸ List.prefix_rfl, fun _ => hsealed⟩
  | data bytes =>
    rw [hreading] at h
    cases bytes with
    | nil =>
      have hsealed := hending h
      exact ⟨hsealed ▸ List.prefix_rfl, fun _ => hsealed⟩
    | cons byte bytes =>
      obtain ⟨w', steps, _, hreceive, hdone, rfl⟩ :=
        Trace.of_bind (p := w.afterRead.receive (byte :: bytes)) h
      cases hdone
      rw [List.append_nil]
      exact sealed_of_receive (w := w.afterRead) hreceive

end Worker

/-! ## Steps that are not the last -/

theorem Producer.exists_trace {α : Type} (p : Producer α) : ∃ steps result, Trace p steps result := by
  induction p with
  | done result => exact ⟨[], result, .done result⟩
  | act action next ih =>
    have hanswer : Nonempty action.Answer := by
      cases action <;> exact ⟨default⟩
    obtain ⟨answer⟩ := hanswer
    obtain ⟨steps, result, h⟩ := ih answer
    exact ⟨_, result, .act h⟩

theorem Producer.After.append_trace {α : Type} {p rest : Producer α} {steps later : List Step}
    {result : α} (h : p.After steps rest) (hrest : Trace rest later result) :
    Trace p (steps ++ later) result := by
  induction h with
  | none => exact hrest
  | act _ ih => exact .act (ih hrest)

/-- A worker that acts on its read has handed on the beginning of what the read seals. -/
theorem Worker.sealed_prefix_of_after {w : Worker dev t} {steps : List Step}
    {rest : Producer (Turn dev t)} (h : (w.afterRead.respond w.reading).After steps rest) :
    (handovers steps).map Handover.sealed <+: w.sealing := by
  obtain ⟨later, turn, hlater⟩ := rest.exists_trace
  have hwhole := (sealed_of_respond (h.append_trace hlater)).1
  rw [handovers_append, List.map_append] at hwhole
  exact (List.prefix_append ..).trans hwhole

end EventCamera
