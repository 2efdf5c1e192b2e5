import EventCamera.Proofs.Capacity
import Mathlib.Logic.Function.Iterate
import Mathlib.Order.Bounds.Basic

/-! # How a buffer grows

Whatever is asked of a buffer, one request after the other: it holds the events that were pushed, and
its capacity is the one it began with, doubled as often as the demands that it met need, and no more
often. -/

namespace EventCamera

/-! ## Rounds of doubling -/

/-- One round of doubling. It stops at the largest number of events that can be counted. -/
def doubleOnce (capacity : Nat) : Nat :=
  min (2 * capacity) maxCount

/-- The numbers of rounds after which a capacity covers a demand. -/
def coveringRounds (demand capacity : Nat) : Set Nat :=
  {rounds | demand ≤ doubleOnce^[rounds] capacity}

theorem iterate_doubleOnce {capacity : Nat} (h : capacity ≤ maxCount) (rounds : Nat) :
    doubleOnce^[rounds] capacity = min (capacity * 2 ^ rounds) maxCount := by
  induction rounds with
  | zero =>
    rw [Function.iterate_zero_apply, Nat.pow_zero, Nat.mul_one, Nat.min_eq_left h]
  | succ rounds ih =>
    rw [Function.iterate_succ_apply', ih, doubleOnce, Nat.pow_succ, ← Nat.mul_assoc]
    omega

/-- Doubling takes the fewest rounds after which the demand is covered. -/
theorem exists_doubledTo_eq (demand : Nat) {capacity : Nat} (h : 0 < capacity) :
    ∃ rounds, IsLeast {n | demand ≤ capacity * 2 ^ n} rounds ∧
      doubledTo demand capacity = capacity * 2 ^ rounds := by
  fun_induction doubledTo demand capacity with
  | case1 capacity hgrows ih =>
    obtain ⟨rounds, ⟨hcovers, hleast⟩, heq⟩ := ih (by omega)
    have hshift (n : Nat) : capacity * 2 ^ (n + 1) = 2 * capacity * 2 ^ n := by
      rw [Nat.pow_succ, Nat.mul_comm (2 ^ n) 2, ← Nat.mul_assoc, Nat.mul_comm capacity 2]
    refine ⟨rounds + 1, ⟨?_, fun n hn => ?_⟩, heq.trans (hshift rounds).symm⟩
    · exact Nat.le_trans hcovers (Nat.le_of_eq (hshift rounds).symm)
    · cases n with
      | zero =>
        have hcovered : demand ≤ capacity * 2 ^ 0 := hn
        omega
      | succ n => exact Nat.succ_le_succ (hleast (Nat.le_trans hn (Nat.le_of_eq (hshift n))))
  | case2 capacity hstop =>
    refine ⟨0, ⟨?_, fun n _ => Nat.zero_le n⟩, by omega⟩
    change demand ≤ capacity * 2 ^ 0
    omega

/-- A demand that can be counted is covered after 64 rounds at most. -/
theorem exists_isLeast_coveringRounds {demand capacity : Nat} (hpos : 0 < capacity)
    (hcapacity : capacity ≤ maxCount) (hdemand : demand ≤ maxCount) :
    ∃ rounds ≤ 64, IsLeast (coveringRounds demand capacity) rounds ∧
      min (doubledTo demand capacity) maxCount = doubleOnce^[rounds] capacity := by
  obtain ⟨rounds, hleast, heq⟩ := exists_doubledTo_eq demand hpos
  have hsame : coveringRounds demand capacity = {n | demand ≤ capacity * 2 ^ n} := by
    ext n
    simp only [coveringRounds, iterate_doubleOnce hcapacity, Set.mem_ofPred_eq]
    omega
  have hreached : demand ≤ capacity * 2 ^ 64 := by
    unfold maxCount at hdemand
    omega
  refine ⟨rounds, hleast.2 hreached, hsame ▸ hleast, ?_⟩
  rw [heq, iterate_doubleOnce hcapacity]

namespace Buffer

variable {k : EventKind}

/-! ## Requests -/

/-- Something that is asked of a buffer, and for which it may have to grow; with the most bytes that
can be reserved at that moment. -/
inductive Request (k : EventKind) where
  | push (event : k.Record) (memory : Nat)
  | ensure (more memory : Nat)

namespace Request

def more : Request k → Nat
  | push .. => 1
  | ensure more _ => more

def memory : Request k → Nat
  | push _ memory | ensure _ memory => memory

/-- The events that are added. -/
def records : Request k → List k.Record
  | push event _ => [event]
  | ensure .. => []

end Request

def answer (b : Buffer k) : Request k → Except GrowthError (Buffer k)
  | .push event memory => b.push event memory
  | .ensure more memory => b.ensure more memory

/-- The buffer after a request. One that is refused leaves it as it was. -/
def serve (b : Buffer k) (r : Request k) : Buffer k :=
  match b.answer r with
  | .ok after => after
  | .error _ => b

def serveAll (b : Buffer k) (requests : List (Request k)) : Buffer k :=
  requests.foldl serve b

/-- The requests that are not refused, each with the number of events that it demands room for, those
included that are there. -/
def met (b : Buffer k) : List (Request k) → List (Nat × Request k)
  | [] => []
  | r :: rest =>
    (if (b.answer r).isOk then [(b.size + r.more, r)] else []) ++ (b.serve r).met rest

/-- Whether the limit and the memory allow a capacity. -/
def Allows (k : EventKind) (limit memory capacity : Nat) : Prop :=
  capacity ≤ limit ∧ capacity * k.recordSize ≤ min memory maxReservation

instance (limit memory capacity : Nat) : Decidable (Allows k limit memory capacity) :=
  inferInstanceAs (Decidable (_ ∧ _))

theorem grant_eq (k : EventKind) (limit memory current requested : Nat) :
    grant k limit memory current requested =
      if Allows k limit memory requested then .ok requested else .error ⟨k, current, requested⟩ :=
  rfl

theorem isOk_grant_iff (limit memory current requested : Nat) :
    (grant k limit memory current requested).isOk ↔ Allows k limit memory requested := by
  rw [grant_eq]
  by_cases hallowed : Allows k limit memory requested
  · simp [hallowed, Except.isOk, Except.toBool]
  · simp [hallowed, Except.isOk, Except.toBool]

/-- What a buffer answers to a request: it doubles for as many rounds as its demand needs, and fails if
there are any and the capacity that they lead to is not allowed. -/
structure Answers (b : Buffer k) (r : Request k) : Prop where
  exists_rounds : ∃ rounds ≤ 64,
    IsLeast (coveringRounds (min (b.size + r.more) maxCount) b.capacity) rounds ∧
      b.answer r =
        if rounds = 0 ∨ Allows k b.limit r.memory (doubleOnce^[rounds] b.capacity) then
          .ok { b with
            events := b.events ++ r.records.toArray
            capacity := doubleOnce^[rounds] b.capacity }
        else
          .error ⟨k, b.capacity, doubleOnce^[rounds] b.capacity⟩
  refused : ¬ (b.answer r).isOk → b.serve r = b

/-- What a buffer that began with a capacity has become after it met some requests. -/
structure Grown (capacity limit : Nat) (epoch : Int) (met : List (Nat × Request k))
    (b : Buffer k) : Prop where
  events_eq : b.events.toList = met.flatMap (·.2.records)
  size_le : b.size ≤ b.capacity
  le_limit : b.capacity ≤ limit
  le_memory : b.capacity * k.recordSize ≤ maxReservation
  capacity_eq : ∃ doublings,
    IsLeast {n | ∀ m ∈ met, m.1 ≤ capacity * 2 ^ n} doublings ∧ b.capacity = capacity * 2 ^ doublings
  limit_eq : b.limit = limit
  epoch_eq : b.epoch = epoch

theorem answer_eq (b : Buffer k) (r : Request k) :
    b.answer r = (b.capacityFor r.more r.memory).map fun capacity =>
      { b with events := b.events ++ r.records.toArray, capacity } := by
  cases r with
  | push event memory =>
    refine congrArg (Except.map · (b.capacityFor 1 memory)) (funext fun capacity => ?_)
    exact congrArg (Buffer.mk · capacity b.limit b.epoch) Array.push_eq_append
  | ensure more memory =>
    refine congrArg (Except.map · (b.capacityFor more memory)) (funext fun capacity => ?_)
    exact congrArg (Buffer.mk · capacity b.limit b.epoch) Array.append_empty.symm

theorem exists_capacityFor_eq {b : Buffer k} (hpos : 0 < b.capacity)
    (hmemory : b.capacity * k.recordSize ≤ maxReservation) (more memory : Nat) :
    ∃ rounds ≤ 64, IsLeast (coveringRounds (min (b.size + more) maxCount) b.capacity) rounds ∧
      b.capacityFor more memory =
        if rounds = 0 ∨ Allows k b.limit memory (doubleOnce^[rounds] b.capacity) then
          .ok (doubleOnce^[rounds] b.capacity)
        else
          .error ⟨k, b.capacity, doubleOnce^[rounds] b.capacity⟩ := by
  have hcount := two_mul_lt_maxCount hmemory
  obtain ⟨rounds, hfew, hleast, heq⟩ := exists_isLeast_coveringRounds hpos (by omega)
    (Nat.min_le_right (b.size + more) maxCount)
  refine ⟨rounds, hfew, hleast, ?_⟩
  by_cases hcovered : min (b.size + more) maxCount ≤ b.capacity
  · obtain rfl : rounds = 0 := Nat.le_zero.1 (hleast.2 hcovered)
    rw [capacityFor, if_pos hcovered, if_pos (.inl rfl), Function.iterate_zero_apply]
  · have hsome : rounds ≠ 0 := by
      rintro rfl
      exact hcovered hleast.1
    rw [capacityFor, if_neg hcovered, heq, grant_eq]
    exact if_congr (or_iff_right hsome).symm rfl rfl

/-- A capacity that fits into memory was doubled without stopping at the largest number of events. -/
theorem rounds_of_le_maxReservation {b : Buffer k} {demand rounds : Nat}
    (hmemory : b.capacity * k.recordSize ≤ maxReservation)
    (hrounds : IsLeast (coveringRounds (min demand maxCount) b.capacity) rounds)
    (hkept : doubleOnce^[rounds] b.capacity * k.recordSize ≤ maxReservation) :
    doubleOnce^[rounds] b.capacity = b.capacity * 2 ^ rounds ∧
      IsLeast {n | demand ≤ b.capacity * 2 ^ n} rounds := by
  obtain ⟨hcovers, hfewest⟩ := hrounds
  have hcount := two_mul_lt_maxCount hkept
  have hbefore := two_mul_lt_maxCount hmemory
  have hdoubled (n : Nat) := iterate_doubleOnce (show b.capacity ≤ maxCount by omega) n
  have hgrown : doubleOnce^[rounds] b.capacity = b.capacity * 2 ^ rounds := by
    have hrounds := hdoubled rounds
    omega
  refine ⟨hgrown, ?_, fun n hn => hfewest ?_⟩
  · have hcovered : min demand maxCount ≤ doubleOnce^[rounds] b.capacity := hcovers
    change demand ≤ b.capacity * 2 ^ rounds
    omega
  · have hcovered : demand ≤ b.capacity * 2 ^ n := hn
    change _ ≤ doubleOnce^[n] b.capacity
    rw [hdoubled n]
    omega

theorem answers {b : Buffer k} (hpos : 0 < b.capacity)
    (hmemory : b.capacity * k.recordSize ≤ maxReservation) (r : Request k) : b.Answers r where
  exists_rounds := by
    obtain ⟨rounds, hfew, hleast, heq⟩ := exists_capacityFor_eq hpos hmemory r.more r.memory
    refine ⟨rounds, hfew, hleast, ?_⟩
    rw [answer_eq, heq]
    split <;> rfl
  refused hfailed := by
    unfold serve
    cases hr : b.answer r with
    | ok after =>
      rw [hr] at hfailed
      exact absurd rfl hfailed
    | error e => rfl

/-! ## Requests one after the other -/

theorem grown_withCapacity {capacity limit memory : Nat} {epoch : Int} {b : Buffer k}
    (h : withCapacity k capacity limit epoch memory = .ok b) :
    Grown (max capacity 1) limit epoch [] b := by
  unfold withCapacity grant at h
  split at h
  · rename_i hallowed
    cases h
    refine ⟨rfl, Nat.zero_le _, hallowed.1, Nat.le_trans hallowed.2 (Nat.min_le_right ..),
      ⟨0, ?_, (Nat.mul_one _).symm⟩, rfl, rfl⟩
    exact ⟨fun m hm => absurd hm List.not_mem_nil, fun n _ => Nat.zero_le n⟩
  · cases h

namespace Grown

variable {capacity limit : Nat} {epoch : Int} {met : List (Nat × Request k)} {b : Buffer k}

theorem capacity_pos (h : Grown capacity limit epoch met b) (hpos : 0 < capacity) :
    0 < b.capacity := by
  obtain ⟨doublings, -, heq⟩ := h.capacity_eq
  rw [heq]
  exact Nat.mul_pos hpos (Nat.two_pow_pos doublings)

theorem answers (h : Grown capacity limit epoch met b) (hpos : 0 < capacity) (r : Request k) :
    b.Answers r :=
  Buffer.answers (h.capacity_pos hpos) h.le_memory r

/-- What covers all demands covers the earlier ones, and then doubles until it covers the new one. -/
theorem isLeast_append {demand : Nat × Request k} {doublings rounds : Nat}
    (hmet : IsLeast {n | ∀ m ∈ met, m.1 ≤ capacity * 2 ^ n} doublings)
    (hnew : IsLeast {n | demand.1 ≤ capacity * 2 ^ doublings * 2 ^ n} rounds) :
    IsLeast {n | ∀ m ∈ met ++ [demand], m.1 ≤ capacity * 2 ^ n} (doublings + rounds) := by
  obtain ⟨hall, hleast⟩ := hmet
  obtain ⟨hcovers, hfewest⟩ := hnew
  constructor
  · intro m hm
    rcases List.mem_append.1 hm with hbefore | hnow
    · refine Nat.le_trans (hall m hbefore) (Nat.mul_le_mul_left _ ?_)
      exact Nat.pow_le_pow_right Nat.two_pos (Nat.le_add_right ..)
    · obtain rfl := List.mem_singleton.1 hnow
      rw [Nat.pow_add, ← Nat.mul_assoc]
      exact hcovers
  · intro n hn
    have hearlier : doublings ≤ n := hleast fun m hm => hn m (List.mem_append_left _ hm)
    obtain ⟨more, rfl⟩ := Nat.exists_eq_add_of_le hearlier
    have hlast := hn _ (List.mem_append_right _ List.mem_cons_self)
    rw [Nat.pow_add, ← Nat.mul_assoc] at hlast
    exact Nat.add_le_add_left (hfewest hlast) doublings

theorem serve (h : Grown capacity limit epoch met b) (hpos : 0 < capacity) (r : Request k) :
    Grown capacity limit epoch
      (met ++ if (b.answer r).isOk then [(b.size + r.more, r)] else []) (b.serve r) := by
  obtain ⟨⟨rounds, -, hrounds, hanswer⟩, hrefused⟩ := h.answers hpos r
  by_cases hallowed : rounds = 0 ∨ Allows k b.limit r.memory (doubleOnce^[rounds] b.capacity)
  · rw [if_pos hallowed] at hanswer
    have hkept : doubleOnce^[rounds] b.capacity ≤ limit ∧
        doubleOnce^[rounds] b.capacity * k.recordSize ≤ maxReservation := by
      rcases hallowed with rfl | ⟨hlimit, hmemory⟩
      · exact ⟨h.le_limit, h.le_memory⟩
      · exact ⟨h.limit_eq ▸ hlimit, Nat.le_trans hmemory (Nat.min_le_right ..)⟩
    obtain ⟨doublings, hleast, hcapacity⟩ := h.capacity_eq
    obtain ⟨hgrown, hfewest⟩ := rounds_of_le_maxReservation h.le_memory hrounds hkept.2
    have hfits : b.size + r.more ≤ b.capacity * 2 ^ rounds := hfewest.1
    have hrecords : r.records.length ≤ r.more := by
      cases r with
      | push event memory => exact Nat.le_refl 1
      | ensure more memory => exact Nat.zero_le more
    have hok : (b.answer r).isOk := by rw [hanswer]; rfl
    have hserved : b.serve r = { b with
        events := b.events ++ r.records.toArray
        capacity := doubleOnce^[rounds] b.capacity } := by rw [Buffer.serve, hanswer]
    rw [if_pos hok, hserved]
    refine ⟨?_, ?_, hkept.1, hkept.2, ⟨doublings + rounds, ?_, ?_⟩, h.limit_eq, h.epoch_eq⟩
    · rw [List.flatMap_append, ← h.events_eq, Array.toList_append, List.flatMap_singleton]
    · rw [hgrown]
      simp only [size, Array.size_append, List.size_toArray] at hfits ⊢
      omega
    · rw [hcapacity] at hfewest
      exact isLeast_append hleast hfewest
    · rw [hgrown, hcapacity, Nat.pow_add, Nat.mul_assoc]
  · rw [if_neg hallowed] at hanswer
    have hfailed : (b.answer r).isOk = false := by rw [hanswer]; rfl
    rw [hfailed, hrefused (by simp [hfailed])]
    simpa using h

theorem serveAll (h : Grown capacity limit epoch met b) (hpos : 0 < capacity)
    (requests : List (Request k)) :
    Grown capacity limit epoch (met ++ b.met requests) (b.serveAll requests) := by
  induction requests generalizing met b with
  | nil => simpa [Buffer.met, Buffer.serveAll] using h
  | cons r requests ih =>
    have hlater := ih (h.serve hpos r)
    rw [List.append_assoc] at hlater
    exact hlater

end Grown

theorem isOk_withCapacity_iff (capacity limit : Nat) (epoch : Int) (memory : Nat) :
    (withCapacity k capacity limit epoch memory).isOk ↔ Allows k limit memory (max capacity 1) := by
  rw [← isOk_grant_iff limit memory 0, withCapacity]
  cases grant k limit memory 0 (max capacity 1) with
  | ok granted => exact Iff.rfl
  | error e => exact Iff.rfl

/-- A buffer can be made with every capacity that the limit and the memory allow. Whatever is asked of it
then, and whatever can be reserved each time: it holds the events that were pushed, it has doubled as
often as the demands that it met need, and the next request makes it double as often as its demand needs
or, if it must not or cannot, changes nothing. -/
theorem serveAll_grown (capacity limit : Nat) (epoch : Int) (memory : Nat) :
    ((withCapacity k capacity limit epoch memory).isOk ↔ Allows k limit memory (max capacity 1)) ∧
      ∀ b, withCapacity k capacity limit epoch memory = .ok b → ∀ requests : List (Request k),
        Grown (max capacity 1) limit epoch (b.met requests) (b.serveAll requests) ∧
          ∀ r, (b.serveAll requests).Answers r := by
  refine ⟨isOk_withCapacity_iff capacity limit epoch memory, fun b h requests => ?_⟩
  have hpos : 0 < max capacity 1 := Nat.le_max_right ..
  have hgrown := (grown_withCapacity h).serveAll hpos requests
  exact ⟨hgrown, hgrown.answers hpos⟩

/-- Two pixels, room that there is no memory for, room that there is, more than the limit allows, and a
pixel that needs no memory. -/
def sampleRequests : List (Request .polarity) :=
  [.push ⟨3, 4, true, 10⟩ 100, .push ⟨5, 6, false, 11⟩ 100, .ensure 2 71, .ensure 2 72,
    .ensure 20 1000, .push ⟨7, 8, true, 12⟩ 0]

/-- The fourth request doubles the capacity. The one before it and the one after it are refused. -/
theorem serveAll_grown_sample :
    ∃ b : Buffer .polarity, withCapacity .polarity 3 20 1 36 = .ok b ∧
      (b.serveAll sampleRequests).size = 3 ∧ (b.serveAll sampleRequests).capacity = 6 ∧
      (b.met sampleRequests).map Prod.fst = [1, 2, 4, 3] ∧
      ((b.serveAll sampleRequests).answer (.ensure 4 143)).isOk = false ∧
      Grown 3 20 1 (b.met sampleRequests) (b.serveAll sampleRequests) ∧
      ∀ r, (b.serveAll sampleRequests).Answers r := by
  refine ⟨⟨#[], 3, 20, 1⟩, rfl, by decide +kernel, by decide +kernel, by decide +kernel,
    by decide +kernel, ?_⟩
  exact (serveAll_grown 3 20 1 36).2 _ rfl sampleRequests

end Buffer

end EventCamera
