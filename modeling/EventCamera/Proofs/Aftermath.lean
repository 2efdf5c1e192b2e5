import EventCamera.Proofs.Fragmentation
import EventCamera.Proofs.Service
import EventCamera.Wire.Dvs128

/-! # After the worker

A worker that comes to its end by itself lets go of those who wait for containers. A worker that is
taken down by a read does not: the flag stays set and the queue stays open until someone stops the
acquisition. -/

namespace EventCamera

/-! ## What a consumer meets -/

/-- Those who wait are let go: the flag is cleared, the queue is closed, and who asks for a container
when there is none is told that none is left. -/
structure Exchange.Released (x : Exchange) : Prop where
  running_eq : x.running = false
  closed_eq : x.queue.closed = true
  pop_eq : x.queue.items = [] → x.pop true = (.nothing, x)

/-- Those who wait are left to wait: the flag is set, the queue is open, and who asks for a container
when there is none waits. -/
structure Exchange.Deserted (x : Exchange) : Prop where
  running_eq : x.running = true
  closed_eq : x.queue.closed = false
  pop_eq : x.queue.items = [] → x.pop true = (.waits, x)

namespace Exchange

variable {x : Exchange}

theorem pop_of_items_nil (h : x.queue.items = []) (waiting : Bool) :
    x.pop waiting = (if waiting && !x.queue.closed then .waits else .nothing, x) := by
  simp [pop, take?, Queue.pop?, h]

theorem released_iff : x.Released ↔ x.running = false ∧ x.queue.closed = true := by
  constructor
  · intro h
    exact ⟨h.running_eq, h.closed_eq⟩
  · rintro ⟨hrunning, hclosed⟩
    exact ⟨hrunning, hclosed, fun hitems => by simp [pop_of_items_nil hitems, hclosed]⟩

theorem deserted_iff : x.Deserted ↔ x.running = true ∧ x.queue.closed = false := by
  constructor
  · intro h
    exact ⟨h.running_eq, h.closed_eq⟩
  · rintro ⟨hrunning, hclosed⟩
    exact ⟨hrunning, hclosed, fun hitems => by simp [pop_of_items_nil hitems, hclosed]⟩

end Exchange

namespace Service

variable {dev : Device} {t : Transport} {m : Service dev t} {source : t.State}

/-! ## A worker at its end stays there -/

theorem turn_stopping (m : Service dev t) : m.stopping.turn = m.turn := by
  unfold stopping
  split
  · split <;> rfl
  · rfl
  · split
    · unfold join
      split <;> rfl
    · rfl
  · rfl
  · rfl
  · rfl

theorem turn_pop (m : Service dev t) (waiting : Bool) : (m.pop waiting).turn = m.turn := by
  unfold pop
  split
  · split <;> rfl
  · rfl

theorem turn_notify (m : Service dev t) : m.notify.turn = m.turn := by
  unfold notify
  split <;> rfl

theorem turn_work_of_isOver (hover : m.isOver) : m.work.turn = m.turn := by
  cases howed : m.owed with
  | zero => rw [work_of_isOver howed hover]
  | succ owed => simp only [work, howed]

theorem turn_follow_of_isOver (hover : m.isOver) (later : List Act) :
    (m.follow later).turn = m.turn := by
  have hstep {m : Service dev t} (hover : m.isOver) (act : Act) : (m.step act).turn = m.turn := by
    cases act with
    | work => exact turn_work_of_isOver hover
    | pop waiting => exact m.turn_pop waiting
    | notify => exact m.turn_notify
    | stop => exact m.turn_stopping
  induction later generalizing m with
  | nil => rfl
  | cons act later ih =>
    have hturn := hstep hover act
    have hover' : (m.step act).isOver := by
      rw [isOver_iff, hturn, ← isOver_iff]
      exact hover
    exact (ih hover').trans hturn

theorem halt_follow {later : List Act} (hstop : .stop ∉ later) : (m.follow later).halt = m.halt := by
  have hstep (m : Service dev t) (act : Act) (hact : act ≠ .stop) : (m.step act).halt = m.halt := by
    cases act with
    | work =>
      simp only [step, work]
      split
      · rfl
      · rfl
      · split <;> rfl
    | pop waiting =>
      simp only [step, pop]
      split
      · split <;> rfl
      · rfl
    | notify =>
      simp only [step, notify]
      split <;> rfl
    | stop => exact absurd rfl hact
  induction later generalizing m with
  | nil => rfl
  | cons act later ih =>
    simp only [List.mem_cons, not_or] at hstop
    exact (ih hstop.2).trans (hstep m act (Ne.symm hstop.1))

/-! ## Taking what is left -/

theorem pop_of_items (hopen : m.halt.isOpen) (waiting : Bool) {c : Container} {items : List Container}
    (hitems : m.exchange.queue.items = c :: items) :
    m.pop waiting = { m with
      exchange := { m.exchange with queue := { m.exchange.queue with items } }
      popped := m.popped ++ [c], owing := m.owing + 1 } := by
  simp only [pop, hopen, if_true, Operation.attempt, Queue.pop?, hitems]

theorem exists_emptied (hopen : m.halt.isOpen) :
    ∃ pops : List Act, (∀ act ∈ pops, act = .pop true) ∧
      (m.follow pops).exchange.queue.items = [] := by
  generalize hitems : m.exchange.queue.items = items
  induction items generalizing m with
  | nil => exact ⟨[], List.forall_mem_nil _, hitems⟩
  | cons c items ih =>
    have hpop := pop_of_items hopen true hitems
    obtain ⟨pops, hpops, hempty⟩ := ih (m := m.pop true) (by rw [hpop]; exact hopen) (by rw [hpop])
    exact ⟨.pop true :: pops, List.forall_mem_cons.2 ⟨rfl, hpops⟩, hempty⟩

/-! ## The end of the worker -/

/-- A worker that comes to its end before anyone stops the acquisition has wound up. -/
theorem Sound.released (hdev : dev.NeverStops) (h : m.Sound source) (hhalt : m.halt = .uncalled)
    {w : Worker dev t} (hturn : m.turn = .done (.finished w)) : m.exchange.Released := by
  have hcame := h.came hdev hturn
  have hsteady := h.steady (by rw [hhalt]; rfl)
  rw [Exchange.released_iff, h.running_eq, h.closed_eq]
  generalize m.steps = steps at hcame hsteady ⊢
  cases hcame with
  | unwanted hran =>
    -- it cannot have found the flag cleared, as it had not cleared it itself
    have hgoes := hsteady (by simp [hran.routine.any_stops, Step.stops])
    have hlast := hgoes ⟨.isRunning, false⟩ (by simp)
    cases hlast
  | ended => simp [closing, Step.stops, Step.closes]

/-- A worker that is taken down leaves the flag and the queue as they were. -/
theorem Sound.deserted (hdev : dev.NeverStops) (h : m.Sound source) (hhalt : m.halt = .uncalled)
    (hturn : m.turn = .done .crashed) :
    (∃ s room, t.Reaches source s ∧ (t.read s room).1 = .crashed) ∧ m.exchange.Deserted := by
  cases h.came hdev hturn with
  | crashed hreaches hread hroutine =>
    refine ⟨⟨_, _, hreaches, hread⟩, Exchange.deserted_iff.2 ?_⟩
    rw [h.running_eq, h.closed_eq, hhalt, hroutine.any_stops, hroutine.any_closes]
    exact ⟨rfl, rfl⟩

/-- What is left to consumers once the worker has come to its end, while no one stops the acquisition.
They are let go, unless a read took the worker down: then they wait, whatever they do. -/
structure Aftermath (source : t.State) (m : Service dev t) : Prop where
  released_iff : m.isOver → (m.exchange.Released ↔ m.turn? ≠ some .crashed)
  deserted : m.turn? = some .crashed →
    (∃ s room, t.Reaches source s ∧ (t.read s room).1 = .crashed) ∧
      ∀ later, Act.stop ∉ later →
        (m.follow later).turn? = some .crashed ∧ (m.follow later).exchange.Deserted
  /-- Consumers alone come to an empty queue. -/
  emptied : ∃ pops : List Act, (∀ act ∈ pops, act = .pop true) ∧
    (m.follow pops).exchange.queue.items = []

theorem Sound.aftermath (hdev : dev.NeverStops) (h : m.Sound source) (hhalt : m.halt = .uncalled) :
    m.Aftermath source where
  released_iff := by
    intro hover
    rcases isOver_iff.1 hover with hturn | ⟨w, hturn⟩
    · have hdeserted := (h.deserted hdev hhalt hturn).2
      simp [Exchange.released_iff, hdeserted.running_eq, turn?_eq_some_iff, hturn]
    · simp [h.released hdev hhalt hturn, turn?_eq_some_iff, hturn]
  deserted := by
    intro hcrashed
    rw [turn?_eq_some_iff] at hcrashed
    refine ⟨(h.deserted hdev hhalt hcrashed).1, fun later hstop => ?_⟩
    have hturn := turn_follow_of_isOver (isOver_iff.2 (.inl hcrashed)) later
    rw [hcrashed] at hturn
    have hhalt' := (halt_follow hstop).trans hhalt
    exact ⟨turn?_eq_some_iff.2 hturn, ((h.follow hdev later).deserted hdev hhalt' hturn).2⟩
  emptied := exists_emptied (by rw [hhalt]; rfl)

end Service

def serves (dev : Device) (settings : Settings) (source : Source) (schedule : List Service.Act)
    (test : Service dev Source.transport → Bool) : Bool :=
  match Acquisition.start dev settings Source.transport source false with
  | .error _ => false
  | .ok a => test (a.service.follow schedule)

theorem exists_of_serves {dev : Device} {settings : Settings} {source : Source}
    {schedule : List Service.Act} {test : Service dev Source.transport → Bool}
    (h : serves dev settings source schedule test) :
    ∃ a, Acquisition.start dev settings Source.transport source false = .ok a ∧
      test (a.service.follow schedule) := by
  unfold serves at h
  split at h
  · cases h
  · rename_i a ha
    exact ⟨a, ha, h⟩

/-- While no one stops an acquisition, its worker leaves no one waiting when it has come to its end,
unless a read took it down. -/
theorem service_aftermath {dev : Device} {t : Transport} {settings : Settings} {source : t.State}
    {paced : Bool} {a : Acquisition dev t} (hdev : dev.NeverStops)
    (h : Acquisition.start dev settings t source paced = .ok a) {schedule : List Service.Act}
    (hstop : .stop ∉ schedule) : (a.service.follow schedule).Aftermath source := by
  have hsound := Service.Sound.start h
  have hhalt : a.service.halt = .uncalled := rfl
  exact (hsound.follow hdev schedule).aftermath hdev ((Service.halt_follow hstop).trans hhalt)

def crashingSource : Source :=
  { pieces := [.data Worker.sampleBytes, .crash] }

/-- The worker has handed on three containers when it is taken down. -/
theorem service_aftermath_dvs128 :
    ∃ a, Acquisition.start Wire.Dvs128.device {} Source.transport crashingSource false = .ok a ∧
      Wire.Dvs128.device.NeverStops ∧ .stop ∉ List.replicate 40 Service.Act.work ∧
      (a.service.follow (.replicate 40 .work)).isOver ∧
      (a.service.follow (.replicate 40 .work)).exchange.queue.size = 3 ∧
      (a.service.follow (.replicate 40 .work)).Aftermath crashingSource := by
  have hserves : serves Wire.Dvs128.device {} crashingSource (.replicate 40 .work) fun m =>
      m.isOver && m.exchange.queue.size == 3 := by decide +kernel
  obtain ⟨a, ha, htest⟩ := exists_of_serves hserves
  simp only [Bool.and_eq_true, beq_iff_eq] at htest
  have hdev : Wire.Dvs128.device.NeverStops := fun _ _ => rfl
  have hstop : .stop ∉ List.replicate 40 Service.Act.work := by simp
  exact ⟨a, ha, hdev, hstop, htest.1, htest.2, service_aftermath hdev ha hstop⟩

/-- A worker whose first read takes it down lets go of no one. -/
theorem not_released_crash :
    ∃ a, Acquisition.start Wire.Dvs128.device {} Source.transport { pieces := [.crash] } false =
        .ok a ∧
      .stop ∉ List.replicate 2 Service.Act.work ∧
      (a.service.follow (.replicate 2 .work)).isOver ∧
      ¬ (a.service.follow (.replicate 2 .work)).exchange.Released := by
  have hserves : serves Wire.Dvs128.device {} { pieces := [.crash] } (.replicate 2 .work) fun m =>
      m.isOver && m.exchange.running := by decide +kernel
  obtain ⟨a, ha, htest⟩ := exists_of_serves hserves
  simp only [Bool.and_eq_true] at htest
  refine ⟨a, ha, by simp, htest.1, fun hreleased => ?_⟩
  rw [hreleased.running_eq] at htest
  cases htest.2

end EventCamera
