import EventCamera.Proofs.Aftermath
import EventCamera.Proofs.Shutdown

/-! # Stopping

At whatever moment the call that stops an acquisition comes, it returns, and then every container is
accounted for. -/

namespace EventCamera

variable {dev : Device} {t : Transport}

theorem length_pushedBy (steps : List Step) :
    (pushedBy steps).length = (CommitTotals.count {} (handovers steps)).published := by
  rw [pushedBy, List.length_map, ← List.countP_eq_length_filter, CommitTotals.count_eq]
  exact (Nat.zero_add _).symm

/-- To run a producer is to perform its first action and to run the rest. -/
theorem Producer.run_of_perform {α : Type} {action : Action} (next : action.Answer → Producer α)
    {x x' : Exchange} {answer : action.Answer} (h : x.perform action = some (answer, x'))
    (helping : Nat) :
    ((act action next).run x helping).progress = ((next answer).run x' helping).progress ∧
      ((act action next).run x helping).exchange = ((next answer).run x' helping).exchange := by
  cases action with
  | deliver c =>
    simp only [Exchange.perform] at h
    split at h <;> rename_i hdeliver <;> cases h
    · simp only [run, hdeliver, and_self]
    · simp only [run, hdeliver, and_self]
  | isRunning | level | offer | report | stop | announceEnd | close =>
    cases h
    exact ⟨rfl, rfl⟩

theorem Acquisition.isOver_advance {a : Acquisition dev t}
    (hrunning : a.exchange.running = false) {turn : Turn dev t} (hturn : a.turn = .done turn) :
    (a.advance 0).2.isOver := by
  cases turn with
  | again w =>
    simp [advance, hturn, Turn.next, Worker.turn_eq, Producer.run, hrunning, isOver, turn?]
  | finished w => simp [advance, hturn, Turn.next, pure, Producer.run, isOver, turn?]
  | crashed => simp [advance, hturn, Turn.next, pure, Producer.run, isOver, turn?]

/-- What the call reports when the worker has come to its end, and what it leaves. -/
def Acquisition.concluded (a : Acquisition dev t) :
    Except AcquisitionError Totals × Acquisition dev t :=
  match a.turn? with
  | some (.finished worker) =>
    (.ok worker.total, { a with exchange := a.exchange.drain.2, totals? := some worker.total })
  | _ => (.error .crashed, a)

/-- The first call lets the worker end its turn, and perhaps another one. -/
theorem Acquisition.stop_of_totals {a : Acquisition dev t} (h : a.totals? = none) :
    a.stop = (({ a with
      exchange := (a.exchange.setRunning false).close
      totals? := some {} }.advance 0).2.advance 0).2.concluded := by
  simp only [stop, h]
  rfl

namespace Service

variable {m : Service dev t} {source : t.State}

/-! ## After the call -/

/-- What holds once the call that stops the acquisition has returned totals. -/
structure Balanced (m : Service dev t) (totals : Totals) : Prop where
  /-- What consumers took and then what the call removed is what the worker added. -/
  inOrder : m.popped ++ m.drained = m.pushed
  published_eq : totals.commits.published = m.pushed.length
  increases_eq : m.exchange.increases = totals.commits.published
  decreases_eq : m.exchange.decreases = totals.commits.published
  shutdowns_eq : m.exchange.shutdowns = if totals.transportEnded then 1 else 0
  items_eq : m.exchange.queue.items = []
  running_eq : m.exchange.running = false
  next_eq : ∀ waiting, m.toAcquisition.next waiting = (.nothing, m.toAcquisition)
  stop_eq : m.toAcquisition.stop = (.ok totals, m.toAcquisition)
  follow_eq : ∀ later, m.follow later = m

theorem Sound.turn_ne_crashed (hdev : dev.NeverStops) (hleaves : t.NeverCrashes source)
    (h : m.Sound source) : m.turn ≠ .done .crashed := by
  intro hturn
  cases h.came hdev hturn with
  | crashed hreaches hread => exact hleaves _ hreaches _ hread

theorem step_of_balanced {w : Worker dev t} (hend : m.AtEnd w)
    (hhalt : m.halt = .returned (.ok w.total)) (hstop : m.toAcquisition.stop.1 = .ok w.total)
    (hclosed : m.exchange.queue.closed = true) (act : Act) : m.step act = m := by
  cases act with
  | work => exact work_of_isOver hend.owed_eq hend.isOver
  | pop waiting =>
    simp [step, pop, Operation.attempt, Queue.pop?, hend.items_eq, hclosed]
  | notify => simp only [step, notify, hend.owing_eq]
  | stop =>
    simp only [step, stopping, hhalt, hstop]
    rw [← hhalt]

theorem Sound.balanced_of_atEnd (hdev : dev.NeverStops) (h : m.Sound source) {w : Worker dev t}
    (hend : m.AtEnd w) (htotals : m.totals? = some w.total)
    (hhalt : m.halt = .returned (.ok w.total)) : m.Balanced w.total := by
  obtain ⟨hcommits, hannounces⟩ := (h.came hdev hend.turn_eq).of_finished
  obtain ⟨hrunning, hclosed, hdecreases, -⟩ := h.of_halt hhalt
  have hpublished : w.total.commits.published = m.pushed.length := by
    rw [hcommits, pushed, length_pushedBy]
  have hinOrder := h.inOrder
  have hincreases := h.increases_eq
  rw [hend.items_eq, List.append_nil] at hinOrder
  rw [hend.owed_eq] at hincreases
  rw [hend.owing_eq, hinOrder] at hdecreases
  have hstop : m.toAcquisition.stop = (.ok w.total, m.toAcquisition) := by
    simp only [Acquisition.stop, htotals]
  refine {
    inOrder := hinOrder
    published_eq := hpublished
    increases_eq := hincreases.trans hpublished.symm
    decreases_eq := hdecreases.trans hpublished.symm
    shutdowns_eq := h.shutdowns_eq.trans hannounces
    items_eq := hend.items_eq
    running_eq := hrunning
    next_eq := fun waiting => ?_
    stop_eq := hstop
    follow_eq := fun later => ?_ }
  · have hpop : m.exchange.pop waiting = (.nothing, m.exchange) := by
      simp [Exchange.pop_of_items_nil hend.items_eq, hclosed, Halt.closes]
    have hturn : m.turn? = some (.finished w) := turn?_eq_some_iff.2 hend.turn_eq
    simp [Acquisition.next, hpop, hturn]
  · induction later with
    | nil => rfl
    | cons act later ih =>
      have hstep := step_of_balanced hend hhalt (congrArg Prod.fst hstop) hclosed act
      exact (congrArg (fun m => Service.follow m later) hstep).trans ih

theorem Sound.balanced (hdev : dev.NeverStops) (hleaves : t.NeverCrashes source)
    (h : m.Sound source) (result : Except AcquisitionError Totals)
    (hhalt : m.halt = .returned result) : ∃ totals, result = .ok totals ∧ m.Balanced totals := by
  cases (hhalt ▸ h.halted : m.Halted (.returned result)) with
  | stopped hend htotals => exact ⟨_, rfl, h.balanced_of_atEnd hdev hend htotals hhalt⟩
  | crashed hturn => exact absurd hturn (h.turn_ne_crashed hdev hleaves)

/-! ## A worker that is no longer wanted -/

theorem follow_owed {n k : Nat} (howed : m.owed = n + k) :
    m.follow (.replicate n .work) =
      { m with exchange := n.repeat Exchange.notifyIncrease m.exchange, owed := k } := by
  induction n generalizing k with
  | zero =>
    obtain rfl : m.owed = k := by simpa using howed
    rfl
  | succ n ih =>
    rw [List.replicate_succ', follow_append, ih (k := k + 1) (by omega)]
    rfl

/-- With the flag cleared the worker waits for nothing: it takes the next step of its turn and notifies
of it. -/
theorem exists_follow_act (hrunning : m.exchange.running = false) (howed : m.owed = 0)
    {action : Action} {next : action.Answer → Producer (Turn dev t)}
    (hturn : m.turn = .act action next) :
    ∃ n answer x steps, m.exchange.perform action = some (answer, x) ∧
      m.follow (.replicate n .work) = { m with exchange := x, turn := next answer, steps } := by
  cases hbegin : m.exchange.begin action with
  | none =>
    have hwaits := (Exchange.waits_of_begin hbegin).2.2
    rw [hrunning] at hwaits
    cases hwaits
  | some r =>
    obtain ⟨answer, x, owed⟩ := r
    have hwork : m.work = { m with
        exchange := x, turn := next answer, owed, steps := m.steps ++ [⟨action, answer⟩] } := by
      simp only [work, howed, hturn, hbegin]
    refine ⟨owed + 1, answer, owed.repeat Exchange.notifyIncrease x, m.steps ++ [⟨action, answer⟩],
      by simp [Exchange.perform_eq_begin, hbegin], ?_⟩
    change m.work.follow (.replicate owed .work) = _
    rw [hwork, follow_owed (k := 0) rfl, howed]

/-- With the flag cleared the worker goes on as it does without interruption. -/
theorem exists_follow_run (hrunning : m.exchange.running = false) (howed : m.owed = 0) :
    ∃ n result steps, (m.turn.run m.exchange 0).progress = .finished result ∧
      (m.turn.run m.exchange 0).exchange.running = false ∧
      m.follow (.replicate n .work) = { m with
        exchange := (m.turn.run m.exchange 0).exchange, turn := .done result, steps } := by
  -- on what is left of the turn; an action and its notifications take several acts of the worker
  generalize hturn : m.turn = p
  induction p generalizing m with
  | done result =>
    refine ⟨0, result, m.steps, rfl, hrunning, ?_⟩
    change m = { m with turn := .done result }
    rw [← hturn]
  | act action next ih =>
    obtain ⟨n, answer, x, steps, hperform, hact⟩ := exists_follow_act hrunning howed hturn
    obtain ⟨hprogress, hexchange⟩ := Producer.run_of_perform next hperform 0
    have hx := (Exchange.perform_stopped hperform hrunning).2
    obtain ⟨k, result, later, hfinished, hlast, hfollow⟩ :=
      ih answer (m := { m with exchange := x, turn := next answer, steps }) hx howed rfl
    refine ⟨n + k, result, later, by rw [hprogress, hfinished], by rw [hexchange, hlast], ?_⟩
    rw [← List.replicate_append_replicate, follow_append, hact, hfollow, hexchange]

/-- With the flag cleared the worker comes to the end of its turn, or of another one. -/
theorem exists_follow_advance (hrunning : m.exchange.running = false) (howed : m.owed = 0) :
    ∃ n result steps, (m.toAcquisition.advance 0).2.exchange.running = false ∧
      (m.toAcquisition.advance 0).2.turn = .done result ∧
      m.follow (.replicate n .work) =
        { m with toAcquisition := (m.toAcquisition.advance 0).2, steps } := by
  cases hturn : m.turn with
  | act action next =>
    obtain ⟨n, result, steps, hfinished, hlast, hfollow⟩ := exists_follow_run hrunning howed
    rw [hturn] at hfinished hlast hfollow
    refine ⟨n, result, steps, ?_, ?_, ?_⟩
    · simpa only [Acquisition.advance, hturn] using hlast
    · simp only [Acquisition.advance, hturn, hfinished]
    · simp only [Acquisition.advance, hturn, hfinished, hfollow]
  | done turn =>
    have hwork : m.work = { m with turn := turn.next } := by simp only [work, howed, hturn]
    obtain ⟨n, result, steps, hfinished, hlast, hfollow⟩ :=
      exists_follow_run (m := { m with turn := turn.next }) hrunning howed
    refine ⟨n + 1, result, steps, ?_, ?_, ?_⟩
    · simpa only [Acquisition.advance, hturn] using hlast
    · simp only [Acquisition.advance, hturn, hfinished]
    · change m.work.follow (.replicate n .work) = _
      simp only [Acquisition.advance, hturn, hfinished, hwork, hfollow]

/-- With the flag cleared the worker comes to its end, as it does without interruption. -/
theorem exists_follow_over (hrunning : m.exchange.running = false) (howed : m.owed = 0) :
    ((m.toAcquisition.advance 0).2.advance 0).2.isOver ∧ ∃ n steps,
      m.follow (.replicate n .work) =
        { m with toAcquisition := ((m.toAcquisition.advance 0).2.advance 0).2, steps } := by
  obtain ⟨n, result, steps, hrunning', hturn, hfirst⟩ := exists_follow_advance hrunning howed
  obtain ⟨k, -, later, -, -, hsecond⟩ := exists_follow_advance
    (m := { m with toAcquisition := (m.toAcquisition.advance 0).2, steps }) hrunning' howed
  refine ⟨Acquisition.isOver_advance hrunning' hturn, n + k, later, ?_⟩
  rw [← List.replicate_append_replicate, follow_append, hfirst, hsecond]

/-! ## The way to the end -/

theorem follow_draining {n k : Nat} {totals : Totals} (hhalt : m.halt = .draining (n + k) totals) :
    m.follow (.replicate n .stop) = { m with
      exchange := n.repeat Exchange.notifyDecrease m.exchange, halt := .draining k totals } := by
  induction n generalizing k with
  | zero =>
    rw [Nat.zero_add] at hhalt
    change m = { m with halt := .draining k totals }
    rw [← hhalt]
  | succ n ih =>
    have hhalt' : m.halt = .draining (n + (k + 1)) totals := by
      rw [hhalt, Nat.add_assoc, Nat.add_comm 1 k]
    rw [List.replicate_succ', follow_append, ih hhalt']
    rfl

theorem follow_finished (hhalt : m.halt = .waiting) (howed : m.owed = 0) {w : Worker dev t}
    (hturn : m.turn = .done (.finished w)) :
    m.follow (.replicate (m.exchange.queue.size + 2) .stop) = { m with
      exchange := m.exchange.drain.2, drained := m.exchange.queue.items
      totals? := some w.total, halt := .returned (.ok w.total) } := by
  have hjoin : m.stopping = { m with
      exchange := { m.exchange with queue := m.exchange.queue.clear }
      drained := m.exchange.queue.items, halt := .draining m.exchange.queue.size w.total } := by
    simp only [stopping, hhalt, howed, if_true, join, turn?_eq_some_iff.2 hturn]
    rfl
  rw [List.replicate_succ, List.replicate_succ']
  change m.stopping.follow _ = _
  rw [hjoin, follow_append, follow_draining (k := 0) rfl, Exchange.repeat_notifyDecrease]
  rfl

theorem follow_owing {n k : Nat} (howing : m.owing = n + k) :
    m.follow (.replicate n .notify) =
      { m with exchange := n.repeat Exchange.notifyDecrease m.exchange, owing := k } := by
  induction n generalizing k with
  | zero =>
    obtain rfl : m.owing = k := by simpa using howing
    rfl
  | succ n ih =>
    rw [List.replicate_succ', follow_append, ih (k := k + 1) (by omega)]
    rfl

theorem follow_begun (hhalt : m.halt = .uncalled) (howing : m.owing = 0) :
    m.follow [.stop, .stop] = { m with
      exchange := (m.exchange.setRunning false).close, totals? := some {}, halt := .waiting } := by
  simp [follow, step, stopping, hhalt, howing]

/-- The call returns once the worker has come to its end. -/
theorem exists_follow_concluded (hhalt : m.halt = .waiting) (howed : m.owed = 0)
    (hover : m.isOver) :
    ∃ n, (m.follow (.replicate n .stop)).toAcquisition = m.toAcquisition.concluded.2 ∧
      (m.follow (.replicate n .stop)).halt = .returned m.toAcquisition.concluded.1 := by
  rcases isOver_iff.1 hover with hturn | ⟨w, hturn⟩
  · have hjoin : m.stopping = { m with halt := .returned (.error .crashed) } := by
      simp only [stopping, hhalt, howed, if_true, join, turn?_eq_some_iff.2 hturn]
    refine ⟨1, ?_⟩
    change m.stopping.toAcquisition = _ ∧ m.stopping.halt = _
    simp only [hjoin, Acquisition.concluded, turn?_eq_some_iff.2 hturn, and_self]
  · refine ⟨m.exchange.queue.size + 2, ?_⟩
    simp only [follow_finished hhalt howed hturn, Acquisition.concluded,
      turn?_eq_some_iff.2 hturn, and_self]

/-- Without interruption the call does what the running program does. -/
theorem Sound.exists_follow_stop (h : m.Sound source) (hhalt : m.halt = .uncalled)
    (howed : m.owed = 0) (howing : m.owing = 0) :
    ∃ later, (m.follow later).toAcquisition = m.toAcquisition.stop.2 ∧
      (m.follow later).halt = .returned m.toAcquisition.stop.1 := by
  have htotals : m.totals? = none := by
    cases (hhalt ▸ h.halted : m.Halted .uncalled) with
    | uncalled _ htotals => exact htotals
  have hbegun := follow_begun hhalt howing
  generalize hm₁ : m.follow [.stop, .stop] = m₁ at hbegun
  obtain ⟨hover, n, steps, hwork⟩ :=
    exists_follow_over (m := m₁) (by rw [hbegun]; rfl) (by rw [hbegun]; exact howed)
  generalize hm₂ : m₁.follow (.replicate n .work) = m₂ at hwork
  obtain ⟨k, hlast, hreturned⟩ := exists_follow_concluded (m := m₂) (by rw [hwork, hbegun])
    (by rw [hwork, hbegun]; exact howed) (by rw [hwork]; exact hover)
  have hstop : m.toAcquisition.stop = m₂.toAcquisition.concluded := by
    rw [Acquisition.stop_of_totals htotals, hwork, hbegun]
  refine ⟨[.stop, .stop] ++ .replicate n .work ++ .replicate k .stop, ?_⟩
  rw [follow_append, follow_append, hm₁, hm₂, hstop]
  exact ⟨hlast, hreturned⟩

/-- What is left to do can be done so that the call returns. -/
def CanReturn (m : Service dev t) : Prop :=
  ∃ later result, (m.follow later).halt = .returned result

theorem canReturn_of_follow (acts : List Act) (h : (m.follow acts).CanReturn) : m.CanReturn := by
  obtain ⟨later, totals, hreturned⟩ := h
  exact ⟨acts ++ later, totals, by rw [follow_append, hreturned]⟩

/-- The worker can give its notifications and come to its end. -/
theorem Sound.canReturn_of_waiting (hdev : dev.NeverStops) (h : m.Sound source)
    (hhalt : m.halt = .waiting) : m.CanReturn := by
  have hstop : .stop ∉ List.replicate m.owed Act.work := by simp
  have h₁ := h.follow hdev (.replicate m.owed .work)
  have hhalt₁ := (halt_follow hstop).trans hhalt
  have howed₁ : (m.follow (.replicate m.owed .work)).owed = 0 := by
    rw [follow_owed (k := 0) rfl]
  refine canReturn_of_follow (.replicate m.owed .work) ?_
  generalize m.follow (.replicate m.owed .work) = m₁ at h₁ hhalt₁ howed₁
  have hrunning : m₁.exchange.running = false := (h₁.of_halt hhalt₁).1
  obtain ⟨hover, n, steps, hwork⟩ := exists_follow_over hrunning howed₁
  refine canReturn_of_follow (.replicate n .work) ?_
  rw [hwork]
  obtain ⟨k, -, hreturned⟩ := exists_follow_concluded (m := { m₁ with
    toAcquisition := ((m₁.toAcquisition.advance 0).2.advance 0).2, steps }) hhalt₁ howed₁ hover
  exact ⟨.replicate k .stop, _, hreturned⟩

/-- The call can return, however far it has come. -/
theorem Sound.canReturn (hdev : dev.NeverStops) (h : m.Sound source) : m.CanReturn := by
  cases hhalt : m.halt with
  | uncalled =>
    have hstop : .stop ∉ List.replicate m.owing Act.notify := by simp
    have h₁ := h.follow hdev (.replicate m.owing .notify)
    have hhalt₁ := (halt_follow hstop).trans hhalt
    have howing₁ : (m.follow (.replicate m.owing .notify)).owing = 0 := by
      rw [follow_owing (k := 0) rfl]
    refine canReturn_of_follow (.replicate m.owing .notify) ?_
    generalize m.follow (.replicate m.owing .notify) = m₁ at h₁ hhalt₁ howing₁
    refine canReturn_of_follow [.stop, .stop] ?_
    exact (h₁.follow hdev [.stop, .stop]).canReturn_of_waiting hdev
      (by rw [follow_begun hhalt₁ howing₁])
  | cleared =>
    refine canReturn_of_follow [.stop] ?_
    refine (h.follow hdev [.stop]).canReturn_of_waiting hdev ?_
    change m.stopping.halt = .waiting
    simp only [Service.stopping, hhalt]
  | waiting => exact h.canReturn_of_waiting hdev hhalt
  | draining owed totals =>
    refine canReturn_of_follow (.replicate owed .stop) ⟨[.stop], .ok totals, ?_⟩
    rw [follow_draining (k := 0) hhalt]
    rfl
  | returned result => exact ⟨[], result, hhalt⟩

/-! ## What stopping comes to -/

/-- A call that stops an acquisition can return from any state, and when it has returned, it has
reported totals and every container is accounted for. -/
structure Stops (m : Service dev t) : Prop where
  balanced : ∀ result, m.halt = .returned result →
    ∃ totals, result = .ok totals ∧ m.Balanced totals
  canReturn : ∃ later totals, (m.follow later).halt = .returned (.ok totals)
  /-- Without interruption the call is that of the running program. -/
  uninterrupted : m.halt = .uncalled → m.owed = 0 → m.owing = 0 →
    ∃ later, (m.follow later).toAcquisition = m.toAcquisition.stop.2 ∧
      (m.follow later).halt = .returned m.toAcquisition.stop.1

theorem Sound.stops (hdev : dev.NeverStops) (hleaves : t.NeverCrashes source) (h : m.Sound source) :
    m.Stops where
  balanced := h.balanced hdev hleaves
  canReturn := by
    obtain ⟨later, result, hreturned⟩ := h.canReturn hdev
    obtain ⟨totals, rfl, -⟩ := (h.follow hdev later).balanced hdev hleaves result hreturned
    exact ⟨later, totals, hreturned⟩
  uninterrupted := h.exists_follow_stop

end Service

/-- At whatever moment an acquisition is stopped whose transport never crashes, the call returns and
every container is accounted for. -/
theorem service_stops {settings : Settings} {source : t.State} {paced : Bool}
    {a : Acquisition dev t} (hdev : dev.NeverStops) (hleaves : t.NeverCrashes source)
    (h : Acquisition.start dev settings t source paced = .ok a) (schedule : List Service.Act) :
    (a.service.follow schedule).Stops :=
  ((Service.Sound.start h).follow hdev schedule).stops hdev hleaves

def Halt.totals? : Halt → Option Totals
  | .returned (.ok totals) => some totals
  | .uncalled | .cleared | .waiting | .draining .. | .returned (.error _) => none

theorem Halt.eq_of_totals? {halt : Halt} {totals : Totals} (h : halt.totals? = some totals) :
    halt = .returned (.ok totals) := by
  cases halt with
  | returned result =>
    cases result with
    | ok => rw [Option.some.inj h]
    | error => cases h
  | uncalled | cleared | waiting | draining => cases h

open Wire.Dvs128 in
def resettingSource : Source where
  pieces := [.data (encode (address 3 4 true) 100 0 ++ encodeReset ++
    encode (address 3 5 true) 7 0 ++ encodeReset)]
  idle := true

/-- A consumer takes the first container, and the call comes while the second reset waits for room. -/
def stoppingSchedule : List Service.Act :=
  .replicate 6 .work ++ [.pop true, .notify] ++ .replicate 12 .work ++ [.stop, .stop] ++
    .replicate 8 .work ++ .replicate 3 .stop

/-- The queue has room for one container. Of the four containers that are sealed, one is taken, one is
dropped, one is abandoned, and one is left when the acquisition is stopped. -/
theorem service_stops_dvs128 :
    ∃ a, Acquisition.start Wire.Dvs128.device { queueCapacity := 1 } Source.transport
        resettingSource false = .ok a ∧
      Wire.Dvs128.device.NeverStops ∧ Source.transport.NeverCrashes resettingSource ∧
      (∃ totals, (a.service.follow stoppingSchedule).halt = .returned (.ok totals) ∧
        totals.commits = { published := 2, dropped := 1, resetsAbandoned := 1 }) ∧
      (a.service.follow stoppingSchedule).popped.length = 1 ∧
      (a.service.follow stoppingSchedule).drained.length = 1 ∧
      (a.service.follow stoppingSchedule).Stops := by
  have hserves : serves Wire.Dvs128.device { queueCapacity := 1 } resettingSource stoppingSchedule
      fun m => m.popped.length == 1 && m.drained.length == 1 &&
        m.halt.totals?.any (·.commits == { published := 2, dropped := 1, resetsAbandoned := 1 }) := by
    decide +kernel
  obtain ⟨a, ha, htest⟩ := exists_of_serves hserves
  simp only [Bool.and_eq_true, beq_iff_eq, Option.any_eq_true] at htest
  obtain ⟨⟨hpopped, hdrained⟩, totals, htotals, hcommits⟩ := htest
  have hdev : Wire.Dvs128.device.NeverStops := fun _ _ => rfl
  have hleaves : Source.transport.NeverCrashes resettingSource := Source.neverCrashes (by decide +kernel)
  exact ⟨a, ha, hdev, hleaves, ⟨totals, Halt.eq_of_totals? htotals, hcommits⟩, hpopped, hdrained,
    service_stops hdev hleaves ha stoppingSchedule⟩

end EventCamera
