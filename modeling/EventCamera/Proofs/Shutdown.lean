import EventCamera.Proofs.Backpressure
import EventCamera.Proofs.Running

/-! # Shutdown

When the flag is cleared, at whatever moment, what a session has sealed is the beginning of what it
would have sealed. Nothing is sealed in part. -/

namespace EventCamera

/-! ## A flag that is not set again -/

def Occurrence.KeepsStopped : Occurrence → Prop
  | .switched running => running = false
  | _ => True

/-- Whether the step finds that the acquisition is still wanted. -/
def Step.seesRunning : Step → Bool
  | ⟨.isRunning, running⟩ => running
  | _ => false

def Stopped (steps : List Step) : Prop :=
  ∀ s ∈ steps, s.seesRunning = false

theorem stopped_nil : Stopped [] :=
  List.forall_mem_nil _

theorem stopped_append {before after : List Step} :
    Stopped (before ++ after) ↔ Stopped before ∧ Stopped after :=
  List.forall_mem_append

/-- After a step that does not go on, the acquisition is never found wanted. -/
def UnwantedForGood (steps : List Step) : Prop :=
  steps.Pairwise fun earlier later => earlier.goesOn = false → later.seesRunning = false

theorem unwantedForGood_nil : UnwantedForGood [] :=
  .nil

theorem unwantedForGood_append {before after : List Step} :
    UnwantedForGood (before ++ after) ↔ UnwantedForGood before ∧ UnwantedForGood after ∧
      ((∃ s ∈ before, s.goesOn = false) → Stopped after) := by
  unfold UnwantedForGood Stopped
  rw [List.pairwise_append]
  refine and_congr_right fun _ => and_congr_right fun _ => ?_
  exact ⟨fun h ⟨s, hs, hstop⟩ t ht => h s hs t ht hstop,
    fun h s hs t ht hstop => h ⟨s, hs, hstop⟩ t ht⟩

namespace Exchange

variable {x x' : Exchange}

theorem notifyIncrease_stopped (hstopped : x.running = false) :
    x.notifyIncrease.running = false := by
  simp only [notifyIncrease, hstopped, Bool.false_and]

/-- The producer never sets the flag. -/
theorem perform_stopped {action : Action} {answer : action.Answer}
    (h : x.perform action = some (answer, x')) (hstopped : x.running = false) :
    (Step.mk action answer).seesRunning = false ∧ x'.running = false := by
  cases action with
  | isRunning =>
    cases h
    exact ⟨hstopped, hstopped⟩
  | offer c =>
    simp only [perform, offer] at h
    split at h <;> cases h
    · exact ⟨rfl, hstopped⟩
    · exact ⟨rfl, notifyIncrease_stopped hstopped⟩
  | deliver c =>
    simp only [perform, deliver, hstopped] at h
    split at h <;> rename_i hd
    · cases h
      split at hd <;> cases hd
      exact ⟨rfl, notifyIncrease_stopped hstopped⟩
    · cases h
      split at hd <;> cases hd
      exact ⟨rfl, hstopped⟩
    · cases h
  | level =>
    have hsees : (Step.mk .level answer).seesRunning = false := rfl
    obtain rfl := (Prod.mk.inj (Option.some.inj h)).2
    exact ⟨hsees, hstopped⟩
  | stop =>
    cases h
    exact ⟨rfl, rfl⟩
  | report | announceEnd | close =>
    cases h
    exact ⟨rfl, hstopped⟩

theorem running_of_perform {action : Action} {answer : action.Answer}
    (h : x.perform action = some (answer, x')) (hstop : (Step.mk action answer).goesOn = false) :
    x.running = false := by
  cases action with
  | isRunning =>
    cases h
    exact hstop
  | deliver c =>
    obtain rfl : answer = false := hstop
    simp only [perform, deliver] at h
    split at h <;> rename_i hd
    · cases h
    · split at hd
      · cases hd
      · split at hd
        · cases hd
        · exact Bool.eq_false_iff.2 ‹_›
    · cases h
  | offer | level | report | stop | announceEnd | close => cases hstop

theorem Meanwhile.stopped {o : Occurrence} (h : x.Meanwhile o x') (hkeeps : o.KeepsStopped)
    (hstopped : x.running = false) : x'.running = false := by
  cases h with
  | take h =>
    simp only [take?, Option.map_eq_some_iff] at h
    obtain ⟨_, _, he⟩ := h
    cases he
    exact hstopped
  | switch => exact hkeeps
  | close => exact hstopped

end Exchange

namespace Execution

variable {α : Type} {p : Producer α} {x x' : Exchange} {log : List Occurrence} {result : α}

theorem stopped (h : Execution p x log result x') (hkeeps : ∀ o ∈ log, o.KeepsStopped)
    (hstopped : x.running = false) : Stopped (stepsOf log) ∧ x'.running = false := by
  induction h with
  | done => exact ⟨stopped_nil, hstopped⟩
  | act hp _ ih =>
    obtain ⟨hfirst, hnext⟩ := Exchange.perform_stopped hp hstopped
    obtain ⟨hlater, hend⟩ := ih (List.forall_mem_cons.1 hkeeps).2 hnext
    exact ⟨List.forall_mem_cons.2 ⟨hfirst, hlater⟩, hend⟩
  | meanwhile ho _ ih =>
    obtain ⟨hfirst, hkeeps⟩ := List.forall_mem_cons.1 hkeeps
    simpa only [stepsOf, List.filterMap_cons, ho.step?_eq_none] using
      ih hkeeps (ho.stopped hfirst hstopped)

/-- While no one sets the flag, it stays cleared after a step that does not go on. -/
theorem unwantedForGood (h : Execution p x log result x') (hkeeps : ∀ o ∈ log, o.KeepsStopped) :
    UnwantedForGood (stepsOf log) ∧ ((∃ s ∈ stepsOf log, s.goesOn = false) → x'.running = false) := by
  induction h with
  | done => exact ⟨unwantedForGood_nil, fun ⟨_, hs, _⟩ => nomatch hs⟩
  | act hp hrest ih =>
    have hkeeps := (List.forall_mem_cons.1 hkeeps).2
    have hthen (hstop : (Step.mk _ _).goesOn = false) :=
      hrest.stopped hkeeps (Exchange.perform_stopped hp (Exchange.running_of_perform hp hstop)).2
    obtain ⟨hlater, hend⟩ := ih hkeeps
    refine ⟨List.pairwise_cons.2 ⟨fun s hs hstop => (hthen hstop).1 s hs, hlater⟩, ?_⟩
    rintro ⟨s, hs, hstop⟩
    rcases List.mem_cons.1 hs with rfl | hs
    · exact (hthen hstop).2
    · exact hend ⟨s, hs, hstop⟩
  | meanwhile ho _ ih =>
    simpa only [stepsOf, List.filterMap_cons, ho.step?_eq_none] using
      ih (List.forall_mem_cons.1 hkeeps).2

end Execution

/-! ## Sessions that are cut short -/

theorem AbandonsLast.exists_step {steps : List Step} {r : Container}
    (h : AbandonsLast (handovers steps) r) : ∃ s ∈ steps, s.goesOn = false := by
  obtain ⟨before, heq, -⟩ := h
  have hmem : ⟨.reset r, false⟩ ∈ handovers steps := by
    rw [heq]
    exact List.mem_append_right _ List.mem_cons_self
  obtain ⟨⟨action, answer⟩, hs, hstep⟩ := List.mem_filterMap.1 hmem
  refine ⟨_, hs, ?_⟩
  cases action <;> cases hstep
  rfl

namespace Ledger

variable {dev : Device} {b b' : Ledger dev}

/-- When the acquisition is no longer wanted, calls for reads only find this out. -/
theorem trace_session_of_stopped {reads : List (List UInt8)} {steps : List Step}
    {results : List (Except DecodeError Unit)}
    (h : Trace (session call (reads.map .decode) b) steps (b', results)) (hstopped : Stopped steps) :
    steps = List.replicate reads.length ⟨.isRunning, false⟩ ∧ b' = b ∧
      results = List.replicate reads.length (.ok ()) := by
  induction reads generalizing b steps results with
  | nil =>
    cases h
    exact ⟨rfl, rfl, rfl⟩
  | cons bytes reads ih =>
    obtain ⟨⟨b₁, result⟩, before, _, hcall, hrest, rfl⟩ := h.of_bind
    obtain ⟨⟨b₂, later⟩, after, _, hsession, hend, rfl⟩ := hrest.of_bind
    cases hend
    rw [List.append_nil] at hstopped ⊢
    obtain ⟨hnow, hthen⟩ := stopped_append.1 hstopped
    rcases trace_decode_reach hcall with ⟨rfl, rfl, rfl⟩ | ⟨hsees, -⟩
    · obtain ⟨rfl, rfl, rfl⟩ := ih hsession hthen
      exact ⟨rfl, rfl, rfl⟩
    · cases hnow _ hsees

theorem handovers_replicate_isRunning (n : Nat) :
    handovers (List.replicate n ⟨.isRunning, false⟩) = [] := by
  induction n with
  | zero => rfl
  | succ n ih => exact ih

/-- Once the acquisition is no longer wanted, calls for reads stop at some step of the way they would
have gone. Only the last of these steps can abandon its reset. -/
theorem trace_session_of_unwantedForGood {reads : List (List UInt8)} {steps : List Step}
    {results : List (Except DecodeError Unit)}
    (h : Trace (session call (reads.map .decode) b) steps (b', results))
    (hunwanted : UnwantedForGood steps) :
    ∃ moves, moves <+: b.itinerary (reads.map .decode) ∧ b.Course moves (handovers steps) b' ∧
      (NoneAbandoned (handovers steps) ∨ b.Abandoned moves (handovers steps)) := by
  induction reads generalizing b steps results with
  | nil =>
    cases h
    exact ⟨[], List.nil_prefix, .nil _, .inl (List.forall_mem_nil _)⟩
  | cons bytes reads ih =>
    obtain ⟨⟨b₁, result⟩, before, _, hcall, hrest, rfl⟩ := h.of_bind
    obtain ⟨⟨b₂, later⟩, after, _, hsession, hend, rfl⟩ := hrest.of_bind
    cases hend
    rw [List.append_nil] at hunwanted ⊢
    obtain ⟨-, hthen, hstop⟩ := unwantedForGood_append.1 hunwanted
    have hidle (hnow : ∃ s ∈ before, s.goesOn = false) : handovers after = [] ∧ b' = b₁ := by
      obtain ⟨rfl, rfl, -⟩ := trace_session_of_stopped hsession (hstop hnow)
      exact ⟨handovers_replicate_isRunning _, rfl⟩
    rw [handovers_append]
    rcases trace_decode_reach hcall with
      ⟨rfl, rfl, -⟩ | ⟨-, ⟨hnone, hcourse, -⟩ | ⟨moves, hprefix, hcourse, habandoned⟩⟩
    · obtain ⟨hafter, rfl⟩ := hidle ⟨_, List.mem_cons_self, rfl⟩
      rw [hafter]
      exact ⟨[], List.nil_prefix, .nil _, .inl (List.forall_mem_nil _)⟩
    · obtain ⟨moves, hprefix, hcourse', hor⟩ := ih hsession hthen
      rw [hcourse.end_eq, itinerary_count] at hprefix
      refine ⟨_, (List.prefix_append_right_inj _).2 hprefix, hcourse.append hcourse', ?_⟩
      rcases hor with hlater | habandoned
      · exact .inl (noneAbandoned_append.2 ⟨hnone, hlater⟩)
      · exact .inr (.append hnone (hcourse.end_eq ▸ habandoned))
    · have hlast : ∃ r, AbandonsLast (handovers before) r := by
        obtain ⟨-, -, r, -, hlast, -⟩ := habandoned
        exact ⟨r, hlast⟩
      obtain ⟨r, hlast⟩ := hlast
      obtain ⟨hafter, rfl⟩ := hidle hlast.exists_step
      rw [hafter, List.append_nil]
      exact ⟨moves, hprefix.trans (List.prefix_append ..), hcourse, .inr habandoned⟩

end Ledger

namespace Ledger

variable {dev : Device} {b : Ledger dev}

theorem exists_itinerary_eq (b : Ledger dev) (reads : List (List UInt8)) :
    ∃ units : List (List UInt8), b.itinerary (reads.map .decode) = units.map .unit := by
  induction reads generalizing b with
  | nil => exact ⟨[], rfl⟩
  | cons bytes reads ih =>
    obtain ⟨now, -, hnow⟩ :=
      List.prefix_map_iff.1 (b.reach_prefix (Call.moves dev.unitWidth (.decode bytes)))
    obtain ⟨later, hlater⟩ := ih (b.run (b.reach (Call.moves dev.unitWidth (.decode bytes))))
    refine ⟨now ++ later, ?_⟩
    rw [List.map_append, ← hnow, ← hlater]
    rfl

/-- A session for some reads that the flag may have cut short. It went through whole units, and what
it sealed is the beginning of what these reads seal while the acquisition is wanted. A reset that it
abandoned is the last container that it sealed, by the last unit that it decoded. -/
structure CutShort (d : Decoder dev) (reads : List (List UInt8)) (log : List Occurrence)
    (x' : Exchange) (b : Ledger dev) : Prop where
  run_eq : b = (({ decoder := d } : Ledger dev).run (b.units.map .unit)).count
    (handovers (stepsOf log))
  sealed_eq : b.sealed = (handovers (stepsOf log)).map Handover.sealed
  sealed_prefix : ∀ {x₀ log₀ result x₀'},
    Execution (session Decoder.call (reads.map .decode) d) x₀ log₀ result x₀' →
      Steady (stepsOf log₀) → b.sealed <+: (handovers (stepsOf log₀)).map Handover.sealed
  exists_steady : ∀ {x₀ : Exchange}, x₀.Bounded → ∃ log₀ result x₀',
    Execution (session Decoder.call (reads.map .decode) d) x₀ log₀ result x₀' ∧
      Steady (stepsOf log₀)
  abandoned : NoneAbandoned (handovers (stepsOf log)) ∨
    x'.running = false ∧ ∃ past unit r, b.units = past ++ [unit] ∧
      AbandonsLast (handovers (stepsOf log)) r ∧
      ((({ decoder := d } : Ledger dev).run (past.map .unit)).decoder.settle unit).handedOn.getLast? =
        some (.reset r)
  /-- Once the flag is cleared, further calls only find this out. -/
  idle : x'.running = false → ∀ {later : List (List UInt8)} {log' d' results x''},
    Execution (session Decoder.call (later.map .decode) b.decoder) x' log' (d', results) x'' →
      (∀ o ∈ log', o.KeepsStopped) →
        d' = b.decoder ∧ stepsOf log' = List.replicate later.length ⟨.isRunning, false⟩ ∧
          x'.queue.items = takenFrom log' ++ x''.queue.items

/-- The books of calls that only find the acquisition no longer wanted do not change. -/
theorem idle_of_stopped {b : Ledger dev} {later : List (List UInt8)} {x x' : Exchange}
    {log : List Occurrence} {d : Decoder dev} {results : List (Except DecodeError Unit)}
    (h : Execution (session Decoder.call (later.map .decode) b.decoder) x log (d, results) x')
    (hstopped : Stopped (stepsOf log)) :
    d = b.decoder ∧ stepsOf log = List.replicate later.length ⟨.isRunning, false⟩ ∧
      x.queue.items = takenFrom log ++ x'.queue.items := by
  obtain ⟨b', hb', rfl⟩ := exists_execution b h
  obtain ⟨hsteps, rfl, -⟩ := trace_session_of_stopped hb'.trace hstopped
  have hpushed : pushed log = [] := by
    rw [pushed, hsteps, handovers_replicate_isRunning]
    rfl
  have hitems := h.items_append_pushed
  rw [hpushed, List.append_nil] at hitems
  exact ⟨rfl, hsteps, hitems⟩

end Ledger

/-- Wherever the flag is cleared, and never set again, what a session for reads has sealed is the
beginning of what it would have sealed. -/
theorem session_cutShort {dev : Device} {settings : Settings} {d d' : Decoder dev}
    {reads : List (List UInt8)} {x x' : Exchange} {log : List Occurrence}
    {results : List (Except DecodeError Unit)} (hstart : Decoder.start dev settings = .ok d)
    (h : Execution (session Decoder.call (reads.map .decode) d) x log (d', results) x')
    (hkeeps : ∀ o ∈ log, o.KeepsStopped) :
    ∃ b : Ledger dev,
      Execution (session Ledger.call (reads.map .decode) { decoder := d }) x log (b, results) x' ∧
        b.decoder = d' ∧ b.CutShort d reads log x' := by
  obtain ⟨b, hb, hd⟩ := Ledger.exists_execution { decoder := d } h
  obtain ⟨hunwanted, hcleared⟩ := h.unwantedForGood hkeeps
  obtain ⟨moves, hprefix, hcourse, hor⟩ := Ledger.trace_session_of_unwantedForGood hb.trace hunwanted
  obtain ⟨all, hall⟩ := Ledger.exists_itinerary_eq { decoder := d } reads
  obtain ⟨rest, heq⟩ := hprefix
  obtain ⟨units, -, -, rfl, -⟩ := List.map_eq_append_iff.1 (hall.symm.trans heq.symm)
  have hunits : b.units = units := by
    rw [hcourse.end_eq]
    exact Ledger.units_run_units _ units
  refine ⟨b, hb, hd, hunits ▸ hcourse.end_eq, hcourse.sealed_eq, ?_,
    fun hx₀ => Producer.exists_steady _ hx₀, ?_, ?_⟩
  · intro x₀ log₀ ⟨d₀, results₀⟩ x₀' h₀ hsteady
    obtain ⟨b₀, hb₀, -⟩ := Ledger.exists_execution { decoder := d } h₀
    have hwhole := Ledger.trace_session_of_steady hb₀.trace hsteady (Ledger.tallied_start hstart)
    rw [hwhole.map_sealed rfl, hcourse.end_eq]
    exact Ledger.sealed_run_prefix ⟨rest, heq⟩
  · refine hor.imp_right fun ⟨past, unit, r, hmoves, hlast, hreset⟩ => ?_
    refine ⟨hcleared hlast.exists_step, ?_⟩
    obtain ⟨before, last, rfl, rfl, hunit⟩ := List.map_eq_append_iff.1 hmoves
    obtain ⟨_, _, rfl, he, hnone⟩ := List.map_eq_cons_iff.1 hunit
    cases he
    obtain rfl := List.map_eq_nil_iff.1 hnone
    exact ⟨before, unit, r, hunits, hlast, hreset⟩
  · intro hstopped later log' d'' results' x'' hlater hkeeps'
    exact Ledger.idle_of_stopped hlater (hlater.stopped hkeeps' hstopped).1

open Wire.Dvs128 in
def sampleReads : List (List UInt8) :=
  [encode (address 3 4 true) 100 0 ++ encodeReset ++ encode (address 9 4 false) 20 0,
    encode (address 5 4 false) 30 0]

/-- The flag is cleared as the first pixel is handed on, in a container that fills the queue. The reset
is abandoned, and neither of the other pixels is decoded. -/
theorem session_cutShort_dvs128 :
    ∃ (d d' : Decoder Wire.Dvs128.device) (log : List Occurrence)
      (results : List (Except DecodeError Unit)) (x' : Exchange),
      Decoder.start Wire.Dvs128.device {} = .ok d ∧
      Execution (session Decoder.call (sampleReads.map .decode) d)
        { Exchange.start 1 with stopAt := some 1 } log (d', results) x' ∧
      (∀ o ∈ log, o.KeepsStopped) ∧ ¬ NoneAbandoned (handovers (stepsOf log)) ∧
      ∃ b : Ledger Wire.Dvs128.device,
        Execution (session Ledger.call (sampleReads.map .decode) { decoder := d })
          { Exchange.start 1 with stopAt := some 1 } log (b, results) x' ∧
        b.decoder = d' ∧ b.CutShort d sampleReads log x' := by
  have hrun : comesTo Wire.Dvs128.device {} (sampleReads.map .decode)
      { Exchange.start 1 with stopAt := some 1 }
      fun steps _ => (handovers steps).any Handover.isAbandoned := by decide +kernel
  obtain ⟨d, d', results, steps, x', hd, h, habandoned⟩ := exists_of_comesTo hrun
  have hkeeps : ∀ o ∈ steps.map Occurrence.acted, o.KeepsStopped := by
    intro o ho
    obtain ⟨_, -, rfl⟩ := List.mem_map.1 ho
    trivial
  refine ⟨d, d', steps.map .acted, results, x', hd, h, hkeeps, ?_, session_cutShort hd h hkeeps⟩
  rw [stepsOf_acted]
  intro hnone
  obtain ⟨o, ho, hlost⟩ := List.any_eq_true.1 habandoned
  rw [hnone o ho] at hlost
  cases hlost

end EventCamera
