import EventCamera.Proofs.Steady

/-! # Running without interruption

A producer that is run without interruption executes. If there is someone to take containers, every
producer comes to an end. -/

namespace EventCamera

/-- An exchange whose queue has a place, and holds no more than it has places. -/
structure Exchange.Bounded (x : Exchange) : Prop where
  capacity_pos : 0 < x.queue.capacity
  size_le : x.queue.size ≤ x.queue.capacity

namespace Exchange

variable {x x' : Exchange}

theorem bounded_start (capacity : Nat) : (start capacity).Bounded :=
  ⟨Nat.le_max_right .., Nat.zero_le _⟩

theorem Bounded.insert (h : x.Bounded) (hroom : x.queue.isFull = false) (c : Container) :
    (x.insert c).notifyIncrease.Bounded := by
  refine ⟨h.capacity_pos, ?_⟩
  have hlt : x.queue.size < x.queue.capacity := Nat.lt_of_not_le (of_decide_eq_false hroom)
  have hsize : (x.queue.push c).size = x.queue.size + 1 := List.length_append
  exact hsize ▸ Nat.succ_le_of_lt hlt

theorem Bounded.tail (h : x.Bounded) {c : Container} {items : List Container}
    (hitems : x.queue.items = c :: items) :
    Bounded { x with queue := { x.queue with items } } := by
  have hsize : x.queue.items.length ≤ x.queue.capacity := h.size_le
  rw [hitems, List.length_cons] at hsize
  exact ⟨h.capacity_pos, Nat.le_of_succ_le hsize⟩

theorem Bounded.take (h : x.Bounded) (hfull : x.queue.isFull) :
    ∃ c x', x.take? = some (c, x') ∧ x'.queue.isFull = false ∧ x'.Bounded := by
  have hle : x.queue.capacity ≤ x.queue.items.length := of_decide_eq_true hfull
  have hsize : x.queue.items.length ≤ x.queue.capacity := h.size_le
  have hpos := h.capacity_pos
  cases hitems : x.queue.items with
  | nil =>
    rw [hitems, List.length_nil] at hle
    omega
  | cons c items =>
    rw [hitems, List.length_cons] at hsize
    refine ⟨c, notifyDecrease { x with queue := { x.queue with items } }, ?_, ?_, hpos, ?_⟩
    · simp only [take?, Queue.pop?, hitems, Option.map_some]
    · exact decide_eq_false (Nat.not_le_of_lt hsize)
    · exact Nat.le_of_succ_le hsize

theorem Bounded.perform {action : Action} {answer : action.Answer} (hx : x.Bounded)
    (h : x.perform action = some (answer, x')) : x'.Bounded := by
  cases action with
  | offer c =>
    simp only [Exchange.perform, offer] at h
    split at h <;> cases h
    · exact hx
    · exact hx.insert (Bool.eq_false_iff.2 ‹_›) c
  | deliver c =>
    simp only [Exchange.perform, deliver] at h
    split at h <;> rename_i hd
    · cases h
      split at hd
      · cases hd
        rename_i hroom
        exact hx.insert (by simpa using hroom) c
      · split at hd <;> cases hd
    · cases h
      split at hd
      · cases hd
      · split at hd <;> cases hd
        exact hx
    · cases h
  | isRunning | level | report | stop | announceEnd | close =>
    cases h
    exact ⟨hx.capacity_pos, hx.size_le⟩

theorem Bounded.meanwhile {o : Occurrence} (hx : x.Bounded) (h : x.Meanwhile o x') :
    x'.Bounded := by
  cases h with
  | take h =>
    simp only [take?, Queue.pop?] at h
    split at h
    · cases h
    · rename_i c items hitems
      cases h
      exact ⟨(hx.tail hitems).capacity_pos, (hx.tail hitems).size_le⟩
  | switch | close => exact ⟨hx.capacity_pos, hx.size_le⟩

theorem perform_deliver (hroom : x.queue.isFull = false) (c : Container) :
    x.perform (.deliver c) = some (true, (x.insert c).notifyIncrease) := by
  simp [perform, deliver, hroom]

theorem perform_offer (hroom : x.queue.isFull = false) (c : Container) :
    x.perform (.offer c) = some (true, (x.insert c).notifyIncrease) := by
  simp [perform, offer, hroom]

end Exchange

theorem Execution.bounded {α : Type} {p : Producer α} {x x' : Exchange} {log : List Occurrence}
    {result : α} (h : Execution p x log result x') (hx : x.Bounded) : x'.Bounded := by
  induction h with
  | done => exact hx
  | act hp _ ih => exact ih (hx.perform hp)
  | meanwhile ho _ ih => exact ih (hx.meanwhile ho)

/-- Running a producer without interruption is an execution of it. -/
theorem Producer.execution_of_run {α : Type} {p : Producer α} {x : Exchange} {helping : Nat}
    {result : α} (h : (p.run x helping).progress = .finished result) (hx : x.Bounded) :
    ∃ log, Execution p x log result (p.run x helping).exchange ∧
      takenFrom log = (p.run x helping).taken := by
  induction p generalizing x helping with
  | done result =>
    cases h
    exact ⟨[], .done .., rfl⟩
  | act action next ih =>
    have hact {x₁ : Exchange} {answer : action.Answer} {helping : Nat}
        (hp : x.perform action = some (answer, x₁))
        (hrun : ((next answer).run x₁ helping).progress = .finished result) :
        ∃ log, Execution (.act action next) x log result ((next answer).run x₁ helping).exchange ∧
          takenFrom log = ((next answer).run x₁ helping).taken := by
      obtain ⟨log, hlog, htaken⟩ := ih answer hrun (hx.perform hp)
      exact ⟨_, .act hp hlog, htaken⟩
    cases action with
    | isRunning | level | offer c | report notice | stop | announceEnd | close => exact hact rfl h
    | deliver c =>
      unfold run at h ⊢
      split at h
      · rename_i x₁ hd
        exact hact (by simp only [Exchange.perform, hd]) h
      · rename_i x₁ hd
        exact hact (by simp only [Exchange.perform, hd]) h
      · rename_i helping _ oldest x₁ hd htake
        have hfull : x.queue.isFull := by
          cases hroom : x.queue.isFull with
          | true => rfl
          | false => simp [Exchange.deliver, hroom] at hd
        obtain ⟨_, _, htake', hroom, hx₁⟩ := hx.take hfull
        obtain ⟨rfl, rfl⟩ := Prod.mk.inj (Option.some.inj (htake'.symm.trans htake))
        obtain ⟨log, hlog, htaken⟩ := ih true h (hx₁.insert hroom c)
        have hp := Exchange.perform_deliver hroom c
        exact ⟨_, .meanwhile (.take htake) (.act hp hlog), congrArg (List.cons _) htaken⟩
      · cases h

theorem Producer.exists_act_of_waiting {α : Type} {p rest : Producer α} {x : Exchange}
    {helping : Nat} (h : (p.run x helping).progress = .waiting rest) :
    ∃ action next, rest = .act action next := by
  induction p generalizing x helping with
  | done result => cases h
  | act action next ih =>
    cases action with
    | isRunning | level | offer c | report notice | stop | announceEnd | close => exact ih _ h
    | deliver c =>
      unfold run at h
      split at h
      · exact ih _ h
      · exact ih _ h
      · exact ih _ h
      · cases h
        exact ⟨_, _, rfl⟩

/-- A step that goes on, and whose container the queue takes if it hands one over. -/
def Step.succeeds (s : Step) : Prop :=
  s.goesOn ∧ ∀ o, s.handover? = some o → o.accepted

/-- With someone to take containers in time and to keep the flag set, every producer comes to an end,
and the queue takes all of its containers. -/
theorem Producer.exists_lossless {α : Type} (p : Producer α) {x : Exchange} (hx : x.Bounded) :
    ∃ log result x', Execution p x log result x' ∧ ∀ s ∈ stepsOf log, s.succeeds := by
  induction p generalizing x with
  | done result => exact ⟨[], result, x, .done .., List.forall_mem_nil _⟩
  | act action next ih =>
    have hact {x x₁ : Exchange} (answer : action.Answer) (hx : x.Bounded)
        (h : x.perform action = some (answer, x₁)) (hstep : (Step.mk action answer).succeeds) :
        ∃ log result x', Execution (.act action next) x log result x' ∧
          ∀ s ∈ stepsOf log, s.succeeds := by
      obtain ⟨log, result, x', hrest, hsteps⟩ := ih answer (hx.perform h)
      exact ⟨_, result, x', .act h hrest, List.forall_mem_cons.2 ⟨hstep, hsteps⟩⟩
    -- a container that finds no room does so once the consumer has taken the oldest one
    have hroom (c : Container) : ∃ x₁, x₁.queue.isFull = false ∧ x₁.Bounded ∧
        ((∃ log result x', Execution (.act action next) x₁ log result x' ∧
            ∀ s ∈ stepsOf log, s.succeeds) →
          ∃ log result x', Execution (.act action next) x log result x' ∧
            ∀ s ∈ stepsOf log, s.succeeds) := by
      cases hfull : x.queue.isFull with
      | false => exact ⟨x, hfull, hx, id⟩
      | true =>
        obtain ⟨oldest, x₁, htake, hroom, hx₁⟩ := hx.take hfull
        refine ⟨x₁, hroom, hx₁, fun ⟨log, result, x', hrest, hsteps⟩ => ?_⟩
        exact ⟨_, result, x', .meanwhile (.take htake) hrest, hsteps⟩
    cases action with
    | isRunning =>
      have hx' : (x.setRunning true).Bounded := ⟨hx.capacity_pos, hx.size_le⟩
      obtain ⟨log, result, x', hrest, hsteps⟩ := hact true hx' rfl ⟨rfl, nofun⟩
      exact ⟨_, result, x', .meanwhile (.switch x true) hrest, hsteps⟩
    | deliver c =>
      obtain ⟨x₁, hroom, hx₁, hthen⟩ := hroom c
      exact hthen (hact true hx₁ (Exchange.perform_deliver hroom c) ⟨rfl, by rintro _ ⟨⟩; rfl⟩)
    | offer c =>
      obtain ⟨x₁, hroom, hx₁, hthen⟩ := hroom c
      exact hthen (hact true hx₁ (Exchange.perform_offer hroom c) ⟨rfl, by rintro _ ⟨⟩; rfl⟩)
    | level => exact hact x.level hx rfl ⟨rfl, nofun⟩
    | report | stop | announceEnd | close => exact hact () hx rfl ⟨rfl, nofun⟩

theorem Producer.exists_steady {α : Type} (p : Producer α) {x : Exchange} (hx : x.Bounded) :
    ∃ log result x', Execution p x log result x' ∧ Steady (stepsOf log) := by
  obtain ⟨log, result, x', h, hsteps⟩ := p.exists_lossless hx
  exact ⟨log, result, x', h, fun s hs => (hsteps s hs).1⟩

end EventCamera
