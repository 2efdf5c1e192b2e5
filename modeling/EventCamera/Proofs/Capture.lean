import EventCamera.Proofs.Capacity
import EventCamera.Proofs.Turns

/-! # What a worker makes of a capture

However the reads part a capture, a worker that reads it to the end decodes its whole units. If no call
fails, every event that they add is in a container that was sealed. -/

namespace EventCamera

/-! ## Captures -/

/-- However it is read, a transport delivers these bytes, then comes to its end, and never takes its
reader down. -/
inductive Transport.Delivers (t : Transport) : t.State → List UInt8 → Prop where
  | intro {s bytes} : (∀ room, 0 < room → (t.read s room).1 ≠ .crashed) →
      (∀ room, 0 < room → (t.read s room).1.isEnd → bytes = []) →
      (∀ room, 0 < room → (t.read s room).1.isEnd = false →
        delivered [(t.read s room).1] <+: bytes) →
      (∀ room, 0 < room → (t.read s room).1.isEnd = false →
        Delivers t (t.read s room).2 (bytes.drop (delivered [(t.read s room).1]).length)) →
      Delivers t s bytes

namespace Transport

variable {t : Transport} {s : t.State} {bytes : List UInt8}

theorem Delivers.ends (h : t.Delivers s bytes) : t.Ends s := by
  induction h with
  | intro hcrash _ _ _ ih => exact .intro hcrash ih

theorem Delivers.ne_crashed (h : t.Delivers s bytes) {room : Nat} (hroom : 0 < room) :
    (t.read s room).1 ≠ .crashed := by
  obtain ⟨hcrash, -, -, -⟩ := h
  exact hcrash room hroom

theorem Delivers.eq_nil (h : t.Delivers s bytes) {room : Nat} (hroom : 0 < room)
    (hend : (t.read s room).1.isEnd) : bytes = [] := by
  obtain ⟨-, hnone, -, -⟩ := h
  exact hnone room hroom hend

theorem Delivers.next (h : t.Delivers s bytes) {room : Nat} (hroom : 0 < room)
    (hend : (t.read s room).1.isEnd = false) : ∃ rest,
      bytes = delivered [(t.read s room).1] ++ rest ∧ t.Delivers (t.read s room).2 rest := by
  obtain ⟨-, -, hprefix, hlater⟩ := h
  obtain ⟨rest, rfl⟩ := hprefix room hroom hend
  have hrest := hlater room hroom hend
  rw [List.drop_left] at hrest
  exact ⟨rest, rfl, hrest⟩

/-- A transport that comes to its end delivers what each of its reads takes away. -/
theorem Ends.delivers {content : t.State → List UInt8} (h : t.Ends s)
    (hnone : ∀ s room, 0 < room → (t.read s room).1.isEnd → content s = [])
    (hnext : ∀ s room, 0 < room → (t.read s room).1.isEnd = false → (t.read s room).1 ≠ .crashed →
      content s = delivered [(t.read s room).1] ++ content (t.read s room).2) :
    t.Delivers s (content s) := by
  induction h with
  | @intro s hcrash _ ih =>
    refine .intro hcrash (hnone s) (fun room hroom hend => ?_) (fun room hroom hend => ?_)
    · rw [hnext s room hroom hend (hcrash room hroom)]
      exact List.prefix_append ..
    · rw [hnext s room hroom hend (hcrash room hroom), List.drop_left]
      exact ih room hroom hend

end Transport

namespace Source

def contentOf : List Piece → List UInt8
  | [] | .data [] :: _ | .lost :: _ | .crash :: _ => []
  | .data bytes :: rest => bytes ++ contentOf rest
  | .unavailable :: rest | .interrupted :: rest => contentOf rest

/-- The bytes of a source. -/
def content (s : Source) : List UInt8 :=
  contentOf s.pieces

theorem contentOf_data {bytes : List UInt8} (h : bytes ≠ []) (rest : List Piece) :
    contentOf (.data bytes :: rest) = bytes ++ contentOf rest := by
  cases bytes with
  | nil => exact absurd rfl h
  | cons => rfl

theorem contentOf_dropWhile (pieces : List Piece) :
    contentOf (pieces.dropWhile (· == .interrupted)) = contentOf pieces := by
  induction pieces with
  | nil => rfl
  | cons piece pieces ih =>
    simp only [List.dropWhile_cons]
    split
    · rename_i hinterrupted
      obtain rfl := beq_iff_eq.1 hinterrupted
      exact ih
    · rfl

theorem content_of_isEnd {s : Source} {room : Nat} (hroom : 0 < room)
    (hend : (s.read room).1.isEnd) : s.content = [] := by
  unfold content
  rw [← contentOf_dropWhile]
  unfold read at hend
  cases hpieces : s.pieces.dropWhile (· == .interrupted) with
  | nil => rfl
  | cons piece rest =>
    rw [hpieces] at hend
    cases piece with
    | data bytes =>
      cases bytes with
      | nil => rfl
      | cons byte bytes =>
        obtain ⟨room, rfl⟩ := Nat.exists_eq_succ_of_ne_zero (Nat.ne_of_gt hroom)
        cases hend
    | lost | crash => rfl
    | unavailable | interrupted => cases hend

theorem content_eq_append {s : Source} {room : Nat} (hend : (s.read room).1.isEnd = false)
    (hcrash : (s.read room).1 ≠ .crashed) :
    s.content = delivered [(s.read room).1] ++ (s.read room).2.content := by
  unfold content
  rw [← contentOf_dropWhile s.pieces]
  unfold read at hend hcrash ⊢
  cases hpieces : s.pieces.dropWhile (· == .interrupted) with
  | nil =>
    rw [hpieces] at hend
    cases hidle : s.idle with
    | true => rfl
    | false =>
      simp only [hidle] at hend
      cases hend
  | cons piece rest =>
    rw [hpieces] at hend hcrash
    cases piece with
    | data bytes =>
      have hne : bytes ≠ [] := by
        rintro rfl
        simp [Reading.isEnd] at hend
      have hdelivered : delivered [.data (bytes.take room)] = bytes.take room := List.append_nil _
      dsimp only
      rw [contentOf_data hne, hdelivered]
      split
      · rename_i hlater
        rw [List.take_of_length_le (by simpa using hlater)]
      · rename_i hlater
        rw [contentOf_data (by simpa using hlater), ← List.append_assoc, List.take_append_drop]
    | lost => cases hend
    | crash => exact absurd rfl hcrash
    | unavailable | interrupted => rfl

theorem delivers {s : Source} (hidle : s.idle = false) (hcrash : .crash ∉ s.pieces) :
    transport.Delivers s s.content :=
  (ends hidle hcrash).delivers (fun _ _ => content_of_isEnd) fun _ _ _ => content_eq_append

theorem contentOf_chunks (size : Nat) (bytes : List UInt8) :
    contentOf (chunks size bytes) = bytes := by
  fun_induction chunks size bytes with
  | case1 => rfl
  | case2 bytes hne ih =>
    have htake : bytes.take (max size 1) ≠ [] := by
      intro hnil
      rcases List.take_eq_nil_iff.1 hnil with hzero | hnone
      · omega
      · exact hne hnone
    rw [contentOf_data htake, ih, List.take_append_drop]

theorem delivers_ofBytes (size : Nat) (bytes : List UInt8) :
    transport.Delivers (ofBytes size bytes) bytes := by
  have hcrash : .crash ∉ chunks size bytes := by
    fun_induction chunks size bytes with
    | case1 => exact List.not_mem_nil
    | case2 bytes _ ih => exact fun hmem => (List.mem_cons.1 hmem).elim nofun ih
  have hdelivers := delivers (s := ofBytes size bytes) rfl hcrash
  have hcontent : (ofBytes size bytes).content = bytes := contentOf_chunks size bytes
  rwa [hcontent] at hdelivers

end Source

/-! ## At the end -/

variable {dev : Device} {t : Transport}

/-- What a worker sealed that went through a capture without failure: the events that the whole units
of the capture add. -/
theorem Worker.Through.sealedEvents_eq {settings : Settings} {d : Decoder dev} {w : Worker dev t}
    {capture : List UInt8} {hs : List Handover} (hstart : Decoder.start dev settings = .ok d)
    (hreplaceable : d.collector.Replaceable) (h : w.Through { decoder := d } capture hs)
    (herrors : w.totals.decodeErrors = 0)
    (k : EventKind) : sealedEvents (hs.map Handover.sealed) k =
      ((({ decoder := d } : Ledger dev).run
        ((Decoder.units dev.unitWidth capture).map .unit)).added k).map Added.stamped := by
  obtain ⟨-, b', hcourse, -⟩ := h.course herrors
  let b : Ledger dev := { decoder := d }
  let units := (Decoder.units dev.unitWidth capture).map Move.unit
  have hrun : b.run (units ++ [.rest]) = (b.run units).advance .rest := b.run_append units [.rest]
  have hsealed : hs.map Handover.sealed = ((b.run units).advance .rest).sealed := by
    rw [← hrun]
    exact hcourse.map_sealed rfl
  have hidle : (((b.run units).advance .rest).decoder.buffer k).stamped = [] :=
    Buffer.isEmpty_iff.1 (Decoder.idle_settleRest (Ledger.replaceable_run (b := b) hreplaceable units) k)
  have hconserved := (((Ledger.conserved_start hstart).run units).advance .rest).events k
  rw [hidle, List.append_nil, ← hsealed] at hconserved
  exact hconserved

/-! ## Turns -/

/-- How a turn ended of a worker that reads a capture, after all of the steps that it took: it is
keeps up with what it has read, or has gone through the whole of it. -/
inductive Turn.Consumes (b : Ledger dev) (capture : List UInt8) : Turn dev t → List Step → Prop where
  | again {w : Worker dev t} {steps : List Step} {bytes rest : List UInt8} :
      w.HasRead b bytes (handovers steps) → t.Delivers w.transport rest → bytes ++ rest = capture →
      Consumes b capture (.again w) steps
  | finished {w : Worker dev t} {steps : List Step} : w.Through b capture (handovers steps) →
      Consumes b capture (.finished w) steps

namespace Worker

variable {w w' : Worker dev t} {b : Ledger dev} {capture bytes rest : List UInt8}
  {before steps : List Step} {turn : Turn dev t}

theorem consumes_start {settings : Settings} {source : t.State} {paced : Bool}
    (h : start dev settings t source paced = .ok w) (hdelivers : t.Delivers source capture) :
    Turn.Consumes { decoder := w.decoder } capture (.again w) [] :=
  .again (hasRead_start h).2.2 ((start_ok h).transport_eq ▸ hdelivers) rfl

/-- What a worker makes of its next read. -/
theorem HasRead.consumes (hdev : dev.NeverStops) (hwidth : 0 < dev.unitWidth)
    (hroom : 0 < w.transferSize - w.carried.length) (hhasRead : w.HasRead b bytes (handovers before))
    (hdelivers : t.Delivers w.transport rest)
    (h : Trace (w.afterRead.respond w.reading) steps turn) (hsteady : Steady steps) :
    turn.Consumes b (bytes ++ rest) (before ++ steps) := by
  have hafter : w.afterRead.HasRead b bytes (handovers before) :=
    ⟨hhasRead.carried_eq, hhasRead.bytes_eq, hhasRead.course⟩
  have hending (hend : w.reading.isEnd) {steps : List Step} (h : Trace w.afterRead.ending steps turn) :
      turn.Consumes b (bytes ++ rest) (before ++ steps) := by
    obtain ⟨w', steps, _, hwind, hdone, rfl⟩ := h.of_bind
    cases hdone
    obtain rfl := hdelivers.eq_nil hroom hend
    have hthrough := hafter.windUp hwind
    rw [List.append_nil, List.append_nil]
    rw [← handovers_append] at hthrough
    exact .finished hthrough
  have hnext (hend : w.reading.isEnd = false) : ∃ rest',
      rest = delivered [w.reading] ++ rest' ∧ t.Delivers w.afterRead.transport rest' :=
    hdelivers.next hroom hend
  cases hreading : w.reading with
  | crashed => exact absurd hreading (hdelivers.ne_crashed hroom)
  | lost =>
    rw [hreading] at h
    exact hending (by rw [hreading]; rfl) h
  | unavailable =>
    rw [hreading] at h
    cases h
    obtain ⟨rest', rfl, hrest'⟩ := hnext (by rw [hreading]; rfl)
    rw [hreading, List.append_nil]
    exact .again hafter hrest' rfl
  | data read =>
    rw [hreading] at h
    cases read with
    | nil => exact hending (by rw [hreading]; rfl) h
    | cons byte read =>
      obtain ⟨w', steps, _, hreceive, hdone, rfl⟩ :=
        Trace.of_bind (p := w.afterRead.receive (byte :: read)) h
      cases hdone
      rw [List.append_nil] at hsteady ⊢
      obtain ⟨rest', rfl, hrest'⟩ := hnext (by rw [hreading]; rfl)
      have hhasRead' := hafter.receive hwidth hreceive hsteady
      have htransport := (trace_receive hdev hreceive).2.1
      rw [← handovers_append] at hhasRead'
      have hdelivered : delivered [w.reading] = byte :: read := by
        rw [hreading]
        exact List.append_nil _
      rw [hdelivered]
      exact .again hhasRead' (htransport ▸ hrest') (List.append_assoc ..)

end Worker

theorem Turn.Consumes.turn {b : Ledger dev} {capture : List UInt8} {w : Worker dev t}
    {before steps : List Step} {turn : Turn dev t} (hdev : dev.NeverStops)
    (hwidth : 0 < dev.unitWidth) (hroom : 0 < w.transferSize - w.carried.length)
    (h : Turn.Consumes b capture (.again w) before) (htrace : Trace w.turn steps turn)
    (hsteady : Steady steps) : turn.Consumes b capture (before ++ steps) := by
  cases h with
  | again hhasRead hdelivers heq =>
    subst heq
    rcases Worker.trace_turn htrace with
      ⟨rfl, rfl⟩ | ⟨asked, rest, rfl, -, hnone, ⟨rfl, rfl⟩ | hrespond⟩
    · cases hsteady _ List.mem_cons_self
    · refine .again ?_ hdelivers rfl
      rwa [List.append_nil, handovers_append, hnone, List.append_nil]
    · rw [← List.append_assoc]
      refine Worker.HasRead.consumes hdev hwidth hroom ?_ hdelivers hrespond
        (steady_append.1 hsteady).2
      rwa [handovers_append, hnone, List.append_nil]

end EventCamera
