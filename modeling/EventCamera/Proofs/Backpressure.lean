import EventCamera.Proofs.Conservation
import EventCamera.Proofs.Reach

/-! # Backpressure

What a session seals, and where it leaves the decoder after each call, does not depend on the room in
the queue or on when the consumer takes containers. -/

namespace EventCamera

/-! ## Diaries -/

section Diary

variable {σ τ : Type}

def diary (call : Call → σ → Producer (σ × Except DecodeError Unit)) :
    List Call → σ → Producer (List (σ × Except DecodeError Unit))
  | [], _ => return []
  | c :: rest, s => do
    let (s, result) ← call c s
    let later ← diary call rest s
    return (s, result) :: later

def lastState (s : σ) (entries : List (σ × Except DecodeError Unit)) : σ :=
  (entries.getLast?.map Prod.fst).getD s

theorem lastState_cons (s : σ) (entry : σ × Except DecodeError Unit)
    (entries : List (σ × Except DecodeError Unit)) :
    lastState s (entry :: entries) = lastState entry.1 entries := by
  unfold lastState
  cases entries with
  | nil => rfl
  | cons => simp [List.getLast?_cons]

/-- A session tells the end of its diary. -/
theorem session_eq_map_diary (call : Call → σ → Producer (σ × Except DecodeError Unit))
    (calls : List Call) (s : σ) :
    session call calls s =
      (fun entries => (lastState s entries, entries.map Prod.snd)) <$> diary call calls s := by
  induction calls generalizing s with
  | nil => rfl
  | cons c calls ih =>
    simp only [session, diary, map_bind, ih, bind_map_left]
    refine bind_congr fun entry => bind_congr fun later => ?_
    simp only [map_pure, lastState_cons, List.map_cons]

theorem diary_map (f : σ → τ) {call : Call → σ → Producer (σ × Except DecodeError Unit)}
    {call' : Call → τ → Producer (τ × Except DecodeError Unit)}
    (h : ∀ c s, Prod.map f id <$> call c s = call' c (f s)) (calls : List Call) (s : σ) :
    List.map (Prod.map f id) <$> diary call calls s = diary call' calls (f s) := by
  induction calls generalizing s with
  | nil => rfl
  | cons c calls ih =>
    simp only [diary, map_bind, ← h, bind_map_left]
    refine bind_congr fun ⟨s, result⟩ => ?_
    simp only [Prod.map, id, ← ih, bind_map_left]
    rfl

end Diary

theorem Ledger.exists_diary {dev : Device} {calls : List Call} (b : Ledger dev) {x x' : Exchange}
    {log : List Occurrence} {entries : List (Decoder dev × Except DecodeError Unit)}
    (h : Execution (diary Decoder.call calls b.decoder) x log entries x') :
    ∃ books, Execution (diary Ledger.call calls b) x log books x' ∧
      books.map (Prod.map Ledger.decoder id) = entries := by
  rw [← diary_map Ledger.decoder Ledger.call_forget] at h
  exact h.of_map

/-! ## Observations -/

/-- What a call leaves, apart from what became of the containers: where the decoder is, what was
sealed so far, how many containers were published or dropped, and the result of the call. -/
structure Observation (dev : Device) where
  device : dev.State
  clock : Clock
  batch : Batch
  sealed : List Sealed
  handedOn : Nat
  result : Except DecodeError Unit

namespace Ledger

variable {dev : Device} {b b' : Ledger dev}

/-- What there is to observe after a call. -/
def observe (b : Ledger dev) (result : Except DecodeError Unit) : Observation dev where
  device := b.decoder.device
  clock := b.decoder.clock
  batch := b.decoder.collector.batch
  sealed := b.sealed
  handedOn := b.decoder.collector.totals.published + b.decoder.collector.totals.dropped
  result := result

/-- What there is to observe after each call, as long as the acquisition is wanted. -/
def observations : Ledger dev → List Call → List (Observation dev)
  | _, [] => []
  | b, c :: rest =>
    let moves := c.moves dev.unitWidth
    let after := b.run (b.reach moves)
    { after.observe ((b.verdict moves).mapError .allocation) with
      handedOn := after.sealed.length } :: after.observations rest

theorem observations_count (b : Ledger dev) (hs : List Handover) (calls : List Call) :
    (b.count hs).observations calls = b.observations calls := by
  induction calls generalizing b with
  | nil => rfl
  | cons c calls ih =>
    simp only [observations, reach_count, verdict_count, run_count, ih]
    rfl

/-- Every container that was sealed was published or dropped. -/
def Tallied (b : Ledger dev) : Prop :=
  b.decoder.collector.totals.published + b.decoder.collector.totals.dropped = b.sealed.length

theorem tallied_start {settings : Settings} {d : Decoder dev}
    (h : Decoder.start dev settings = .ok d) : Tallied { decoder := d } := by
  unfold Tallied
  rw [(Decoder.start_ok h).totals_eq]
  rfl

theorem Tallied.of_course {moves : List Move} {steps : List Step} (h : b.Tallied)
    (hcourse : b.Course moves (handovers steps) b') (hsteady : Steady steps) : b'.Tallied := by
  have hcount := hsteady.countP_handovers
  unfold Tallied at *
  rw [hcourse.totals_eq, hcourse.sealed_eq, List.length_append, List.length_map, ← h, ← hcount,
    CommitTotals.count_eq]
  simp only
  omega

theorem Tallied.observe_eq {moves : List Move} {hs : List Handover} (h : b'.Tallied)
    (hcourse : b.Course moves hs b') (result : Except DecodeError Unit) :
    b'.observe result =
      { (b.run moves).observe result with handedOn := (b.run moves).sealed.length } := by
  have hsealed : b'.sealed = (b.run moves).sealed := by
    rw [hcourse.end_eq]
    rfl
  have hobserve : b'.observe result =
      { b'.observe result with handedOn := b'.sealed.length } := by
    rw [← h]
    rfl
  rw [hobserve, hsealed, hcourse.end_eq]
  rfl

/-- As long as the acquisition is wanted, calls get as far as their steps do not fail, and what there
is to observe after each of them does not depend on what became of the containers. -/
theorem trace_diary {calls : List Call} {steps : List Step}
    {books : List (Ledger dev × Except DecodeError Unit)}
    (h : Trace (diary call calls b) steps books) (hsteady : Steady steps) (hb : b.Tallied) :
    b.Course (b.itinerary calls) (handovers steps) (lastState b books) ∧
      books.map (fun e => e.1.observe e.2) = b.observations calls := by
  induction calls generalizing b steps books with
  | nil =>
    cases h
    exact ⟨.nil _, rfl⟩
  | cons c calls ih =>
    obtain ⟨⟨b₁, result⟩, before, _, hcall, hrest, rfl⟩ := h.of_bind
    obtain ⟨later, after, _, hdiary, hend, rfl⟩ := hrest.of_bind
    cases hend
    rw [List.append_nil] at hsteady ⊢
    obtain ⟨hnow, hthen⟩ := steady_append.1 hsteady
    obtain ⟨hfirst, rfl⟩ := trace_call_of_steady hcall hnow
    have htallied := hb.of_course hfirst hnow
    have hobserve := htallied.observe_eq hfirst
    obtain ⟨hlater, hobserved⟩ := ih hdiary hthen htallied
    rw [hfirst.end_eq, itinerary_count] at hlater
    rw [hfirst.end_eq, observations_count] at hobserved
    rw [handovers_append, lastState_cons, List.map_cons, observations, hobserve, hobserved]
    exact ⟨hfirst.append (hfirst.end_eq ▸ hlater), rfl⟩

/-- As long as the acquisition is wanted, a session makes the steps of its calls as far as each call
gets. -/
theorem trace_session_of_steady {calls : List Call} {steps : List Step}
    {results : List (Except DecodeError Unit)}
    (h : Trace (session call calls b) steps (b', results)) (hsteady : Steady steps)
    (hb : b.Tallied) : b.Course (b.itinerary calls) (handovers steps) b' := by
  rw [session_eq_map_diary] at h
  obtain ⟨books, hdiary, he⟩ := h.of_map
  cases he
  exact (trace_diary hdiary hsteady hb).1

end Ledger

/-! ## Two runs -/

/-- The containers of a sequence were handed to the queue in their order. What the queue did not take
was data; what it took went to the consumer in the order in which it was taken, or is still there. -/
structure HandedIn (sealed : List Sealed) (x : Exchange) (log : List Occurrence) (x' : Exchange) :
    Prop where
  sealed_eq : (handovers (stepsOf log)).map Handover.sealed = sealed
  refused : ∀ h ∈ handovers (stepsOf log), h.accepted = false → ∃ c, h.sealed = .data c
  queued : x.queue.items ++ pushed log = takenFrom log ++ x'.queue.items

theorem HandedIn.of_execution {α : Type} {p : Producer α} {x x' : Exchange} {log : List Occurrence}
    {result : α} (h : Execution p x log result x') (hsteady : Steady (stepsOf log)) :
    HandedIn ((handovers (stepsOf log)).map Handover.sealed) x log x' := by
  refine ⟨rfl, fun o ho hrefused => ?_, h.items_append_pushed⟩
  cases hs : o.sealed with
  | data c => exact ⟨c, rfl⟩
  | reset r =>
    have haccepted := hsteady.accepted ho (by rw [hs]; rfl)
    rw [hrefused] at haccepted
    cases haccepted

/-- Books that were kept of a diary: they change nothing, and the containers that they list were
handed to the queue. -/
structure Ledger.Records {dev : Device} (d : Decoder dev) (calls : List Call) (x : Exchange)
    (log : List Occurrence) (entries : List (Decoder dev × Except DecodeError Unit))
    (x' : Exchange) (books : List (Ledger dev × Except DecodeError Unit)) : Prop where
  execution : Execution (diary Ledger.call calls { decoder := d }) x log books x'
  entries_eq : books.map (Prod.map Ledger.decoder id) = entries
  handedIn : HandedIn (lastState { decoder := d } books).sealed x log x'

theorem Ledger.exists_records {dev : Device} {settings : Settings} {d : Decoder dev}
    {calls : List Call} {x x' : Exchange} {log : List Occurrence}
    {entries : List (Decoder dev × Except DecodeError Unit)}
    (hstart : Decoder.start dev settings = .ok d)
    (h : Execution (diary Decoder.call calls d) x log entries x')
    (hsteady : Steady (stepsOf log)) :
    ∃ books, Records d calls x log entries x' books ∧
      books.map (fun e => e.1.observe e.2) = observations { decoder := d } calls := by
  obtain ⟨books, hbooks, he⟩ := exists_diary { decoder := d } h
  obtain ⟨hcourse, hobserved⟩ := trace_diary hbooks.trace hsteady (tallied_start hstart)
  refine ⟨books, ⟨hbooks, he, ?_⟩, hobserved⟩
  rw [hcourse.sealed_eq]
  exact .of_execution h hsteady

/-- As long as the acquisition is wanted, neither the room in the queue nor the consumer makes any
difference to what a session seals and to where it leaves the decoder after each call. -/
theorem diaries_agree {dev : Device} {settings : Settings} {d : Decoder dev} {calls : List Call}
    {x₁ x₁' x₂ x₂' : Exchange} {log₁ log₂ : List Occurrence}
    {entries₁ entries₂ : List (Decoder dev × Except DecodeError Unit)}
    (hstart : Decoder.start dev settings = .ok d)
    (h₁ : Execution (diary Decoder.call calls d) x₁ log₁ entries₁ x₁')
    (h₂ : Execution (diary Decoder.call calls d) x₂ log₂ entries₂ x₂')
    (hsteady₁ : Steady (stepsOf log₁)) (hsteady₂ : Steady (stepsOf log₂)) :
    ∃ books₁ books₂, Ledger.Records d calls x₁ log₁ entries₁ x₁' books₁ ∧
      Ledger.Records d calls x₂ log₂ entries₂ x₂' books₂ ∧
      books₁.map (fun e => e.1.observe e.2) = books₂.map (fun e => e.1.observe e.2) := by
  obtain ⟨books₁, hrecords₁, hobserved₁⟩ := Ledger.exists_records hstart h₁ hsteady₁
  obtain ⟨books₂, hrecords₂, hobserved₂⟩ := Ledger.exists_records hstart h₂ hsteady₂
  exact ⟨books₁, books₂, hrecords₁, hrecords₂, hobserved₁.trans hobserved₂.symm⟩

/-- With room for three containers the last one of these calls is dropped, with room for four it is
not. -/
theorem diaries_agree_dvs128 :
    ∃ (d : Decoder Wire.Dvs128.device) (log₁ log₂ : List Occurrence)
      (entries₁ entries₂ : List (Decoder Wire.Dvs128.device × Except DecodeError Unit))
      (x₁ x₂ : Exchange), Decoder.start Wire.Dvs128.device {} = .ok d ∧
      Execution (diary Decoder.call sampleCalls d) (.start 3) log₁ entries₁ x₁ ∧
      Execution (diary Decoder.call sampleCalls d) (.start 4) log₂ entries₂ x₂ ∧
      Steady (stepsOf log₁) ∧ Steady (stepsOf log₂) ∧
      ∃ books₁ books₂, Ledger.Records d sampleCalls (.start 3) log₁ entries₁ x₁ books₁ ∧
        Ledger.Records d sampleCalls (.start 4) log₂ entries₂ x₂ books₂ ∧
        books₁.map (fun e => e.1.observe e.2) = books₂.map (fun e => e.1.observe e.2) := by
  have hrun₁ : undisturbed Wire.Dvs128.device {} sampleCalls (.start 3) := by decide +kernel
  have hrun₂ : undisturbed Wire.Dvs128.device {} sampleCalls (.start 4) := by decide +kernel
  obtain ⟨d, _, _, log₁, x₁, hd, h₁, -, hsteady₁⟩ := exists_of_undisturbed hrun₁
  obtain ⟨d', _, _, log₂, x₂, hd', h₂, -, hsteady₂⟩ := exists_of_undisturbed hrun₂
  obtain rfl : d = d' := Except.ok.inj (hd.symm.trans hd')
  rw [session_eq_map_diary] at h₁ h₂
  obtain ⟨entries₁, h₁, -⟩ := h₁.of_map
  obtain ⟨entries₂, h₂, -⟩ := h₂.of_map
  exact ⟨d, log₁, log₂, entries₁, entries₂, x₁, x₂, hd, h₁, h₂, hsteady₁, hsteady₂,
    diaries_agree hd h₁ h₂ hsteady₁ hsteady₂⟩

end EventCamera
