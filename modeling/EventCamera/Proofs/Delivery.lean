import EventCamera.Proofs.Fragmentation
import EventCamera.Proofs.Meeting
import EventCamera.Wire.Dvs128

/-! # Complete delivery

A consumer that takes containers until it is told that none is left gets all that the worker added,
in order. It is told so only after the worker has come to its end, and it can always come to that. -/

namespace EventCamera

variable {dev : Device} {t : Transport}

namespace Meeting

variable {m : Meeting dev t}

/-! ## Coming somewhere -/

variable {P : Meeting dev t → Prop}

/-- The parties can act so that something holds. -/
def Can (P : Meeting dev t → Prop) (m : Meeting dev t) : Prop :=
  ∃ later, P (m.follow later)

theorem can_of_self (h : P m) : m.Can P :=
  ⟨[], h⟩

theorem can_of_work (h : m.work.Can P) : m.Can P := by
  obtain ⟨later, hlater⟩ := h
  exact ⟨.worker :: later, hlater⟩

theorem can_of_consume (h : m.consume.Can P) : m.Can P := by
  obtain ⟨later, hlater⟩ := h
  exact ⟨.consumer :: later, hlater⟩

/-- Another meeting that differs only in what the consumer did in the meantime. -/
structure Waits (m m' : Meeting dev t) : Prop where
  turn_eq : m'.turn = m.turn
  owed_eq : m'.owed = m.owed
  deeds_eq : m'.deeds = m.deeds
  capacity_eq : m'.exchange.queue.capacity = m.exchange.queue.capacity
  decreases_le : m.exchange.decreases ≤ m'.exchange.decreases

namespace Waits

theorem refl (m : Meeting dev t) : Waits m m :=
  ⟨rfl, rfl, rfl, rfl, Nat.le_refl _⟩

theorem trans {m₁ m₂ m₃ : Meeting dev t} (h : Waits m₁ m₂) (h' : Waits m₂ m₃) : Waits m₁ m₃ :=
  ⟨h'.turn_eq.trans h.turn_eq, h'.owed_eq.trans h.owed_eq, h'.deeds_eq.trans h.deeds_eq,
    h'.capacity_eq.trans h.capacity_eq, Nat.le_trans h.decreases_le h'.decreases_le⟩

theorem steps_eq {m' : Meeting dev t} (h : Waits m m') : m'.steps = m.steps :=
  congrArg (List.map Deed.step) h.deeds_eq

end Waits

theorem waits_consume (m : Meeting dev t) : Waits m m.consume := by
  unfold consume
  split
  · split
    · rename_i hattempt
      have hattempted := Operation.attempted hattempt
      exact ⟨rfl, rfl, rfl, hattempted.capacity_eq, Nat.le_of_eq hattempted.decreases_eq.symm⟩
    · rename_i hattempt
      have hattempted := Operation.attempted hattempt
      exact ⟨rfl, rfl, rfl, hattempted.capacity_eq, Nat.le_of_eq hattempted.decreases_eq.symm⟩
    · exact .refl m
  · exact ⟨rfl, rfl, rfl, rfl, Nat.le_succ _⟩
  · exact .refl m

theorem consume_of_items {c : Container} {items : List Container} (hasking : m.consumer = .asking)
    (hitems : m.exchange.queue.items = c :: items) :
    m.consume = { m with
      exchange := { m.exchange with queue := { m.exchange.queue with items } }
      consumer := .holding c } := by
  simp only [consume, hasking, Operation.attempt, Queue.pop?, hitems]

theorem consume_of_closed (hasking : m.consumer = .asking) (hitems : m.exchange.queue.items = [])
    (hclosed : m.exchange.queue.closed) : m.consume = { m with consumer := .gone } := by
  simp [consume, hasking, Operation.attempt, Queue.pop?, hitems, hclosed]

theorem work_of_done (howed : m.owed = 0) {turn : Turn dev t} (hturn : m.turn = .done turn) :
    m.work = { m with turn := turn.next } := by
  simp only [work, howed, hturn]

theorem work_of_begin (howed : m.owed = 0) {action : Action}
    {next : action.Answer → Producer (Turn dev t)} (hturn : m.turn = .act action next)
    {answer : action.Answer} {x : Exchange} {owed : Nat}
    (hbegin : m.exchange.begin action = some (answer, x, owed)) :
    m.work = m.act ⟨action, answer⟩ x (next answer) owed := by
  simp only [work, howed, hturn, hbegin]

/-- A consumer that has caught up has notified of every container that the worker notified of. -/
theorem Sound.level_eq_zero (h : m.Sound) (howed : m.owed = 0) (hasking : m.consumer = .asking)
    (hitems : m.exchange.queue.items = []) : m.exchange.level = 0 := by
  have hincreases := h.increases
  have hinOrder := h.inOrder
  simp only [held, hasking, hitems, List.append_nil] at hinOrder
  rw [← hinOrder, ← h.decreases, howed] at hincreases
  simp only [Exchange.level, ← hincreases, Nat.add_zero, Int.sub_self]
  rfl

namespace Sound

theorem can_of_asking (h : m.Sound) (hgone : m.consumer = .gone → P m)
    (hnext : ∀ m', Sound m' → Waits m m' → m'.consumer = .asking →
      m'.exchange.queue = m.exchange.queue → m'.Can P) : m.Can P := by
  cases hconsumer : m.consumer with
  | asking => exact hnext m h (.refl m) hconsumer rfl
  | holding c =>
    have hstep : m.consume = { m with
        exchange := m.exchange.notifyDecrease, consumer := .asking
        received := m.received ++ [c] } := by
      simp only [Meeting.consume, hconsumer]
    refine can_of_consume (hnext m.consume h.consume m.waits_consume ?_ ?_)
    · rw [hstep]
    · rw [hstep]
      rfl
  | gone => exact can_of_self (hgone hconsumer)

theorem can_of_caughtUp (h : m.Sound) (hgone : m.consumer = .gone → P m)
    (hnext : ∀ m', Sound m' → Waits m m' → m'.consumer = .asking →
      m'.exchange.queue.items = [] → m'.Can P) : m.Can P := by
  generalize hn : m.exchange.queue.items = items
  induction items generalizing m with
  | nil =>
    refine h.can_of_asking hgone fun m' hm' hwaits hasking hqueue => ?_
    exact hnext m' hm' hwaits hasking (by rw [hqueue, hn])
  | cons c items ih =>
    refine h.can_of_asking hgone fun m' hm' hwaits hasking hqueue => ?_
    have hitems : m'.exchange.queue.items = c :: items := by rw [hqueue, hn]
    have hconsume := consume_of_items hasking hitems
    refine can_of_consume (ih hm'.consume (fun hgone' => ?_) (fun m'' hm'' hwaits' => ?_) ?_)
    · rw [hconsume] at hgone'
      cases hgone'
    · exact hnext m'' hm'' ((hwaits.trans m'.waits_consume).trans hwaits')
    · rw [hconsume]

theorem running_of_again (h : m.Sound) {w : Worker dev t} (hturn : m.turn = .done (.again w))
    (hcloses : ¬ m.steps.any Step.closes) : m.exchange.running = true := by
  rw [h.leftBy.running_eq]
  rcases hturn ▸ h.underway with ⟨-, hroutine⟩ | ⟨heq, -, hafter⟩
  · rw [hroutine.any_stops]
    rfl
  · rw [heq, List.any_append, Worker.closes_of_trace_ending hafter.trace, Bool.or_true] at hcloses
    exact absurd rfl hcloses

theorem ne_gone_of_open (h : m.Sound) (hcloses : ¬ m.steps.any Step.closes) :
    m.consumer ≠ .gone := by
  intro hgone
  have hclosed := (h.gone hgone).2
  rw [h.leftBy.closed_eq] at hclosed
  exact hcloses hclosed

theorem open_of_act (h : m.Sound) {action : Action} {next : action.Answer → Producer (Turn dev t)}
    (hturn : m.turn = .act action next) : ¬ m.steps.any Step.closes := by
  intro hcloses
  obtain ⟨_, _, _, _, _, _, hdone, _⟩ := h.underway.finished hcloses
  rw [hturn] at hdone
  cases hdone

theorem can_of_take (h : m.Sound) (hgone : m.consumer ≠ .gone) (hitems : m.exchange.queue.items ≠ [])
    (hnext : ∀ m', Sound m' → Waits m m' →
      m'.exchange.queue = { m.exchange.queue with items := m.exchange.queue.items.tail } →
      m'.Can P) : m.Can P := by
  refine h.can_of_asking (fun hgone' => absurd hgone' hgone) fun m' hm' hwaits hasking hqueue => ?_
  obtain ⟨c, items, heq⟩ := List.exists_cons_of_ne_nil hitems
  have hconsume := consume_of_items hasking (hqueue ▸ heq)
  refine can_of_consume (hnext m'.consume hm'.consume (hwaits.trans m'.waits_consume) ?_)
  rw [hconsume, hqueue, heq]
  rfl

end Sound

/-- Another meeting in which the worker has given the notifications that it owed. -/
structure Notified (m m' : Meeting dev t) : Prop where
  turn_eq : m'.turn = m.turn
  deeds_eq : m'.deeds = m.deeds
  queue_eq : m'.exchange.queue = m.exchange.queue
  owed_eq : m'.owed = 0

theorem Notified.steps_eq {m' : Meeting dev t} (h : Notified m m') : m'.steps = m.steps :=
  congrArg (List.map Deed.step) h.deeds_eq

/-- Another meeting in which the worker has taken a step. The consumer took a container only if the
step had to wait for room. -/
structure Acted (m : Meeting dev t) (s : Step) (m' : Meeting dev t) : Prop where
  deeds_eq : ∃ before, m'.deeds = m.deeds ++ [⟨before, s⟩]
  goesOn : m.exchange.running → s.goesOn
  capacity_eq : m'.exchange.queue.capacity = m.exchange.queue.capacity
  filled : m'.exchange.queue.isFull ∨ m'.exchange.queue.items.length =
    m.exchange.queue.items.length + (handovers [s]).length
  refused : m.exchange.queue.isFull → ∀ c accepted, s.handover? = some ⟨.data c, accepted⟩ →
    accepted = false

theorem Acted.steps_eq {m' : Meeting dev t} {s : Step} (h : m.Acted s m') :
    m'.steps = m.steps ++ [s] := by
  obtain ⟨before, hdeeds⟩ := h.deeds_eq
  rw [steps, hdeeds, List.map_append]
  rfl

namespace Sound

variable (hdev : dev.NeverStops)

include hdev

theorem can_of_notified (h : m.Sound) (hnext : ∀ m', Sound m' → m.Notified m' → m'.Can P) :
    m.Can P := by
  generalize hn : m.owed = owed
  induction owed generalizing m with
  | zero => exact hnext m h ⟨rfl, rfl, rfl, hn⟩
  | succ owed ih =>
    have hwork : m.work = { m with exchange := m.exchange.notifyIncrease, owed } := by
      simp only [Meeting.work, hn]
    refine can_of_work (ih (h.work hdev) (fun m' hm' hnotified => ?_) ?_)
    · rw [hwork] at hnotified
      exact hnext m' hm' ⟨hnotified.turn_eq, hnotified.deeds_eq, hnotified.queue_eq,
        hnotified.owed_eq⟩
    · rw [hwork]

/-- The worker can take the next step of its turn. -/
theorem can_of_act (h : m.Sound) {action : Action} {next : action.Answer → Producer (Turn dev t)}
    (hturn : m.turn = .act action next) (hnext : ∀ answer m', Sound m' → m'.turn = next answer →
      m.Acted ⟨action, answer⟩ m' → m'.Can P) : m.Can P := by
  refine h.can_of_notified hdev fun m₁ hm₁ hnotified => ?_
  have hturn₁ := hnotified.turn_eq.trans hturn
  cases hbegin : m₁.exchange.begin action with
  | some r =>
    obtain ⟨answer, x, owed⟩ := r
    have hwork := work_of_begin hnotified.owed_eq hturn₁ hbegin
    have hcapacity := Exchange.capacity_of_begin hbegin
    have hbegun := Exchange.begun hbegin
    refine can_of_work (hnext answer m₁.work (hm₁.work hdev) (by rw [hwork]; rfl) ?_)
    rw [hwork]
    exact {
      deeds_eq := ⟨m₁.exchange, congrArg (· ++ _) hnotified.deeds_eq⟩
      goesOn := fun hrunning => hbegun.goesOn (by
        rw [hm₁.leftBy.running_eq, hnotified.steps_eq, ← h.leftBy.running_eq, hrunning])
      capacity_eq := hcapacity.trans (congrArg Queue.capacity hnotified.queue_eq)
      filled := hnotified.queue_eq ▸ hbegun.filled hcapacity
      refused := fun hfull c accepted =>
        Exchange.accepted_eq_false_of_isFull (hnotified.queue_eq ▸ hfull) hbegin }
  | none =>
    -- a reset waits for room, and the consumer makes it
    obtain ⟨⟨c, rfl⟩, hfull, -⟩ := Exchange.waits_of_begin hbegin
    have hpos := hm₁.bounded.capacity_pos
    have hsize : m₁.exchange.queue.capacity ≤ m₁.exchange.queue.items.length :=
      of_decide_eq_true hfull
    have hgone := hm₁.ne_gone_of_open (hm₁.open_of_act hturn₁)
    have hitems : m₁.exchange.queue.items ≠ [] := List.ne_nil_of_length_pos (by omega)
    refine hm₁.can_of_take hgone hitems fun m₂ hm₂ hwaits hqueue => ?_
    have hlength := List.length_tail (l := m₁.exchange.queue.items)
    have hle : m₁.exchange.queue.items.length ≤ m₁.exchange.queue.capacity := hm₁.bounded.size_le
    have hroom : m₂.exchange.queue.isFull = false := by
      rw [hqueue]
      exact decide_eq_false (by simp only [Queue.size]; omega)
    have hbegin₂ : m₂.exchange.begin (.deliver c) = some (true, m₂.exchange.insert c, 1) := by
      simp only [Exchange.begin, Operation.attempt, hroom]
      rfl
    have hturn₂ := hwaits.turn_eq.trans hturn₁
    have hwork := work_of_begin (hwaits.owed_eq.trans hnotified.owed_eq) hturn₂ hbegin₂
    refine can_of_work (hnext true m₂.work (hm₂.work hdev) (by rw [hwork]; rfl) ?_)
    rw [hwork]
    exact {
      deeds_eq := ⟨m₂.exchange, congrArg (· ++ _) (hwaits.deeds_eq.trans hnotified.deeds_eq)⟩
      goesOn := fun _ => rfl
      capacity_eq := hwaits.capacity_eq.trans (congrArg Queue.capacity hnotified.queue_eq)
      filled := by
        left
        refine decide_eq_true ?_
        change m₂.exchange.queue.capacity ≤ (m₂.exchange.queue.items ++ [c]).length
        rw [List.length_append, hqueue]
        simp only [List.length_singleton]
        omega
      refused := fun _ _ _ hhand => by cases hhand }

/-- The worker can read when the consumer has caught up with it. -/
theorem can_of_read (h : m.Sound) {w : Worker dev t} (hturn : m.turn = .done (.again w))
    (hopen : ¬ m.steps.any Step.closes) (hnext : ∀ m', Sound m' → m'.turn = w.proceed 0 →
      m'.exchange.running → m'.exchange.queue.items = [] →
      m'.exchange.queue.capacity = m.exchange.queue.capacity → m'.Can P) : m.Can P := by
  refine h.can_of_notified hdev fun m₁ hm₁ hnotified => ?_
  have hgone₁ := hm₁.ne_gone_of_open (hnotified.steps_eq ▸ hopen)
  refine hm₁.can_of_caughtUp (absurd · hgone₁) fun m₂ hm₂ hwaits hasking hitems => ?_
  have hturn₂ : m₂.turn = .done (.again w) := by rw [hwaits.turn_eq, hnotified.turn_eq, hturn]
  have howed₂ : m₂.owed = 0 := hwaits.owed_eq.trans hnotified.owed_eq
  have hsteps₂ : m₂.steps = m.steps := hwaits.steps_eq.trans hnotified.steps_eq
  have hrunning : m₂.exchange.running = true := hm₂.running_of_again hturn₂ (hsteps₂ ▸ hopen)
  have hcapacity : m₂.exchange.queue.capacity = m.exchange.queue.capacity :=
    hwaits.capacity_eq.trans (congrArg Queue.capacity hnotified.queue_eq)
  -- the turn begins, and the worker finds that the acquisition is wanted
  have hwork₃ := work_of_done howed₂ hturn₂
  generalize hm₃ : m₂.work = m₃ at hwork₃
  have hturn₃ := (congrArg Meeting.turn hwork₃).trans w.turn_eq
  have hbegin₃ : m₃.exchange.begin .isRunning = some (true, m₂.exchange, 0) := by
    rw [hwork₃, Exchange.begin, hrunning]
  have hwork₄ := work_of_begin (by rw [hwork₃, howed₂]) hturn₃ hbegin₃
  have hm₄ := hm₃ ▸ (hm₂.work hdev).work hdev
  refine can_of_work (can_of_work (hm₃ ▸ ?_))
  generalize m₃.work = m₄ at hwork₄ hm₄
  have hturn₄ : m₄.turn = if w.paced then .act .level w.proceed else w.proceed 0 := by
    rw [hwork₄]
    rfl
  have hexchange₄ : m₄.exchange = m₂.exchange := by
    rw [hwork₄]
    rfl
  by_cases hpaced : w.paced
  · rw [if_pos hpaced] at hturn₄
    have hbegin₄ : m₄.exchange.begin .level = some (0, m₂.exchange, 0) := by
      have hlevel := hm₂.level_eq_zero howed₂ hasking hitems
      rw [hexchange₄]
      exact congrArg (fun level => some (level, m₂.exchange, 0)) hlevel
    have hwork₅ := work_of_begin (by rw [hwork₄]; rfl) hturn₄ hbegin₄
    have hm₅ := hm₄.work hdev
    rw [hwork₅] at hm₅
    refine can_of_work (hwork₅ ▸ ?_)
    exact hnext _ hm₅ rfl hrunning hitems hcapacity
  · rw [if_neg hpaced] at hturn₄
    exact hnext m₄ hm₄ hturn₄ (hexchange₄ ▸ hrunning) (hexchange₄ ▸ hitems) (hexchange₄ ▸ hcapacity)

end Sound

/-! ## Coming to the end -/

/-- The parties can act so that the consumer is told that no container is left. -/
def CanEnd (m : Meeting dev t) : Prop :=
  ∃ later, (m.follow later).consumer = .gone

namespace Sound

/-- Once the queue is closed, only the consumer has to act. -/
theorem canEnd_of_closes (h : m.Sound) (hcloses : m.steps.any Step.closes) : m.CanEnd := by
  refine h.can_of_caughtUp (P := (·.consumer = .gone)) id fun m' hm' hwaits hasking hitems => ?_
  have hclosed : m'.exchange.queue.closed := by rw [hm'.leftBy.closed_eq, hwaits.steps_eq, hcloses]
  refine can_of_consume (can_of_self ?_)
  rw [consume_of_closed hasking hitems hclosed]

variable (hdev : dev.NeverStops)

include hdev

theorem canEnd_of_ending (h : m.Sound) {w : Worker dev t} {before during : List Step}
    (heq : m.steps = before ++ during) (hafter : w.ending.After during m.turn) : m.CanEnd := by
  generalize hp : m.turn = p at hafter
  induction p generalizing m during with
  | done turn =>
    refine h.canEnd_of_closes ?_
    rw [heq, List.any_append, Worker.closes_of_trace_ending hafter.trace, Bool.or_true]
  | act action next ih =>
    refine h.can_of_act (P := (·.consumer = .gone)) hdev hp fun answer m' hm' hturn hacted => ?_
    exact ih answer hm' (by rw [hacted.steps_eq, heq, List.append_assoc]) hturn (hafter.snoc answer)

theorem canEnd_of_working {fits : Worker dev t → Prop}
    (hagain : ∀ (m' : Meeting dev t) w, m'.Sound → m'.turn = .done (.again w) → fits w → m'.CanEnd)
    (h : m.Sound) (hworking : Working fits m.turn) : m.CanEnd := by
  generalize hp : m.turn = p at hworking
  induction hworking generalizing m with
  | again hw => exact hagain m _ h hp hw
  | act haction _ ih =>
    rcases h.underway with ⟨-, hroutine⟩ | ⟨heq, -, hafter⟩
    · refine h.can_of_act (P := (·.consumer = .gone)) hdev hp fun answer m' hm' hturn hacted => ?_
      refine ih answer (hacted.goesOn ?_) hm' hturn
      rw [h.leftBy.running_eq, hroutine.any_stops]
      rfl
    · exact h.canEnd_of_ending hdev heq hafter
  | ending w =>
    have hafter : w.ending.After [] m.turn := hp ▸ .none w.ending
    exact h.canEnd_of_ending hdev (List.append_nil _).symm hafter

theorem canEnd_of_again {source : t.State} (hends : t.Ends source) (h : m.Sound)
    {w : Worker dev t} (hturn : m.turn = .done (.again w)) (hw : w.Fit)
    (hsource : w.transport = source) : m.CanEnd := by
  induction hends generalizing m w with
  | intro _ _ ih =>
    subst hsource
    by_cases hcloses : m.steps.any Step.closes
    · exact h.canEnd_of_closes hcloses
    refine h.can_of_read (P := (·.consumer = .gone)) hdev hturn hcloses fun m' hm' hturn' _ _ _ => ?_
    replace hturn' : m'.turn = w.afterRead.respond w.reading := hturn'
    cases hend : w.reading.isEnd with
    | true =>
      rw [Worker.respond_of_isEnd hend] at hturn'
      have hafter : w.afterRead.ending.After [] m'.turn := hturn' ▸ .none w.afterRead.ending
      exact hm'.canEnd_of_ending hdev (List.append_nil _).symm hafter
    | false =>
      have hworking := (hw.afterRead hend).respond hdev hw.reading_ne hend
      refine hm'.canEnd_of_working hdev (fun m'' w'' hm'' hturn'' hw'' => ?_) (hturn' ▸ hworking)
      exact ih _ hw.room hend hm'' hturn'' hw''.1 hw''.2

/-- However a worker and a consumer came to meet, they can come to the end. -/
theorem canEnd (h : m.Sound) : m.CanEnd := by
  rcases h.underway with ⟨hworking, -⟩ | ⟨heq, -, hafter⟩
  · refine h.canEnd_of_working hdev (fun m' w hm' hturn hw => ?_) hworking
    exact hm'.canEnd_of_again hdev hw.ends hturn hw rfl
  · exact h.canEnd_of_ending hdev heq hafter

end Sound

/-! ## What the consumer gets -/

/-- The consumer got a container, unless the queue was full when the worker had it to hand. -/
def GotUnlessFull (m : Meeting dev t) (sealed : Sealed) : Prop :=
  sealed.container ∈ m.received ∨
    ∃ deed ∈ m.deeds, deed.HandedBack sealed ∧ deed.before.queue.isFull

/-- Whatever the order in which a worker and a consumer act: containers come out of the queue in the
order in which they went in, only a full queue refuses one, and a consumer that is told that none is
left got them all, after the worker has sealed the rest and come to its end. -/
structure Delivered (m : Meeting dev t) : Prop where
  inOrder : m.received ++ m.held ++ m.exchange.queue.items = m.pushed
  refused : ∀ deed ∈ m.deeds, ∀ sealed, deed.HandedBack sealed → deed.before.queue.isFull
  complete : m.consumer = .gone → m.received = m.pushed
  /-- The worker has sealed the rest after all else. -/
  flushed : m.consumer = .gone → ∃ (w w' : Worker dev t) (before during : List Step),
    m.turn = .done (.finished w') ∧ m.steps = before ++ during ∧ Trace w.windUp during w' ∧
      (handovers during).map Handover.sealed = w.decoder.settleRest.handedOn ∧
      ∀ sealed ∈ w.decoder.settleRest.handedOn, m.GotUnlessFull sealed
  ended : m.consumer = .gone → m.exchange.running = false ∧ m.exchange.shutdowns = 1 ∧
    ∀ later, (m.follow later).pushed = m.pushed
  canEnd : m.CanEnd

theorem pushed_follow {w : Worker dev t} (hgone : m.consumer = .gone)
    (hturn : m.turn = .done (.finished w)) (later : List Party) :
    (m.follow later).pushed = m.pushed := by
  induction later generalizing m with
  | nil => rfl
  | cons party later ih =>
    cases party with
    | consumer =>
      have hconsume : m.consume = m := by simp only [consume, hgone]
      exact (congrArg (fun m => (follow m later).pushed) hconsume).trans (ih hgone hturn)
    | worker =>
      have hwork : m.work.consumer = .gone ∧ m.work.turn = .done (.finished w) ∧
          m.work.pushed = m.pushed := by
        cases howed : m.owed with
        | zero =>
          rw [work_of_done howed hturn]
          exact ⟨hgone, rfl, rfl⟩
        | succ owed =>
          have hnotify : m.work = { m with exchange := m.exchange.notifyIncrease, owed } := by
            simp only [work, howed]
          rw [hnotify]
          exact ⟨hgone, hturn, rfl⟩
      obtain ⟨hgone', hturn', hpushed⟩ := hwork
      exact (ih hgone' hturn').trans hpushed

/-- A consumer that was told that none is left got all that was added. -/
theorem Sound.received_eq (h : m.Sound) (hgone : m.consumer = .gone) : m.received = m.pushed := by
  have hinOrder := h.inOrder
  rwa [(h.gone hgone).1, List.append_nil, held, hgone, List.append_nil] at hinOrder

/-- What the worker handed on and the queue took, such a consumer got. -/
theorem Sound.gotUnlessFull (h : m.Sound) (hgone : m.consumer = .gone) {o : Handover}
    (ho : o ∈ handovers m.steps) : m.GotUnlessFull o.sealed := by
  obtain ⟨sealed, accepted⟩ := o
  cases accepted with
  | true =>
    left
    rw [h.received_eq hgone]
    exact List.mem_map_of_mem (List.mem_filter.2 ⟨ho, rfl⟩)
  | false =>
    right
    obtain ⟨s, hs, hhand⟩ := List.mem_filterMap.1 ho
    obtain ⟨deed, hdeed, rfl⟩ := List.mem_map.1 hs
    exact ⟨deed, hdeed, hhand, h.refused deed hdeed sealed hhand⟩

theorem Sound.delivered (hdev : dev.NeverStops) (h : m.Sound) : m.Delivered := by
  have hfinished (hgone : m.consumer = .gone) := h.underway.finished (by
    rw [← h.leftBy.closed_eq, (h.gone hgone).2])
  refine {
    inOrder := h.inOrder
    refused := h.refused
    complete := h.received_eq
    flushed := fun hgone => ?_
    ended := fun hgone => ?_
    canEnd := h.canEnd hdev }
  · obtain ⟨w, w', before, during, heq, -, hturn, htrace⟩ := hfinished hgone
    obtain ⟨flushing, rfl, -, hflushing⟩ := Worker.trace_windUp_steps htrace
    have hsealed : (handovers (flushing ++ closing)).map Handover.sealed =
        w.decoder.settleRest.handedOn := by
      rw [handovers_append]
      exact (congrArg _ (List.append_nil _)).trans hflushing
    refine ⟨w, w', before, _, hturn, heq, htrace, hsealed, fun sealed hmem => ?_⟩
    rw [← hsealed] at hmem
    obtain ⟨o, ho, rfl⟩ := List.mem_map.1 hmem
    refine h.gotUnlessFull hgone ?_
    rw [heq, handovers_append]
    exact List.mem_append_right _ ho
  · obtain ⟨w, w', before, during, heq, hbefore, hturn, htrace⟩ := hfinished hgone
    obtain ⟨flushing, rfl, hflushing, -⟩ := Worker.trace_windUp_steps htrace
    refine ⟨?_, ?_, pushed_follow hgone hturn⟩
    · rw [h.leftBy.running_eq, heq]
      simp [closing, Step.stops]
    · rw [h.leftBy.shutdowns_eq, heq, List.countP_append, List.countP_append,
        hbefore.countP_announces, hflushing.countP_announces]
      rfl

end Meeting

def Consumer.isGone : Consumer → Bool
  | .gone => true
  | .asking | .holding _ => false

theorem Consumer.isGone_iff {consumer : Consumer} : consumer.isGone ↔ consumer = .gone := by
  cases consumer <;> simp [isGone]

def meets (dev : Device) (settings : Settings) (source : Source) (schedule : List Party)
    (test : Meeting dev Source.transport → Bool) : Bool :=
  match Acquisition.start dev settings Source.transport source false with
  | .error _ => false
  | .ok a => test (a.meeting.follow schedule)

theorem exists_of_meets {dev : Device} {settings : Settings} {source : Source}
    {schedule : List Party} {test : Meeting dev Source.transport → Bool}
    (h : meets dev settings source schedule test) :
    ∃ a, Acquisition.start dev settings Source.transport source false = .ok a ∧
      test (a.meeting.follow schedule) := by
  unfold meets at h
  split at h
  · cases h
  · rename_i a ha
    exact ⟨a, ha, h⟩

/-- Once its transport has come to its end, an acquisition has delivered all of its containers to a
consumer that waits for them, whatever the order in which the two act. -/
theorem meeting_delivered {settings : Settings} {source : t.State} {paced : Bool}
    {a : Acquisition dev t} (hdev : dev.NeverStops) (hends : t.Ends source)
    (h : Acquisition.start dev settings t source paced = .ok a) (schedule : List Party) :
    (a.meeting.follow schedule).Delivered :=
  ((Meeting.Sound.start hends h).follow hdev schedule).delivered hdev

/-- The consumer acts once for every three acts of the worker. -/
def sampleSchedule : List Party :=
  (List.replicate 16 [.worker, .worker, .worker, .consumer]).flatten

/-- The queue has room for one container. The one of the last flush is refused, the three before it
reach the consumer. -/
theorem meeting_delivered_dvs128 :
    ∃ a, Acquisition.start Wire.Dvs128.device { queueCapacity := 1 } Source.transport
        { pieces := [.data Worker.sampleBytes] } false = .ok a ∧
      Wire.Dvs128.device.NeverStops ∧
      Source.transport.Ends { pieces := [.data Worker.sampleBytes] } ∧
      (a.meeting.follow sampleSchedule).consumer = .gone ∧
      (a.meeting.follow sampleSchedule).received.length = 3 ∧
      (handovers (a.meeting.follow sampleSchedule).steps).length = 4 ∧
      (a.meeting.follow sampleSchedule).Delivered := by
  have hmeets : meets Wire.Dvs128.device { queueCapacity := 1 }
      { pieces := [.data Worker.sampleBytes] } sampleSchedule fun m =>
        m.consumer.isGone && m.received.length == 3 && (handovers m.steps).length == 4 := by
    decide +kernel
  obtain ⟨a, ha, htest⟩ := exists_of_meets hmeets
  simp only [Bool.and_eq_true, beq_iff_eq] at htest
  obtain ⟨⟨hgone, hreceived⟩, hsealed⟩ := htest
  have hdev : Wire.Dvs128.device.NeverStops := fun _ _ => rfl
  have hends : Source.transport.Ends { pieces := [.data Worker.sampleBytes] } :=
    Source.ends rfl (by decide)
  exact ⟨a, ha, hdev, hends, Consumer.isGone_iff.1 hgone, hreceived, hsealed,
    meeting_delivered hdev hends ha sampleSchedule⟩

end EventCamera
