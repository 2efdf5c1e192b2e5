import EventCamera.CommandLine
import EventCamera.Proofs.Books

/-! # What the arguments can ask for

Whatever the arguments are, the counts that they give have 64 bits. -/

namespace EventCamera

theorem exists_of_map_eq_ok {ε α β : Type} {x : Except ε α} {f : α → β} {r : β}
    (h : x.map f = .ok r) : ∃ a, x = .ok a ∧ f a = r := by
  cases x with
  | error e => cases h
  | ok a => exact ⟨a, rfl, Except.ok.inj h⟩

namespace CommandLine

/-- A property of what has been given that no argument breaks. -/
structure KeptByArguments (P : Draft → Prop) : Prop where
  set : ∀ {d d' : Draft} {p : Parameter} {value : String}, P d → d.set p value = .ok d' → P d'
  turnOn : ∀ {d d' : Draft} {s : Switch}, P d → d.turnOn s = .ok d' → P d'
  add : ∀ {d d' : Draft} {argument : String}, P d → d.add argument = .ok d' → P d'

namespace KeptByArguments

variable {P : Draft → Prop} {d d' : Draft} {expected : Option Parameter}

theorem readName (h : KeptByArguments P) {cs : List Char} (hd : P d)
    (hread : CommandLine.readName cs d = .ok (d', expected)) : P d' := by
  unfold CommandLine.readName at hread
  dsimp only at hread
  split at hread
  · split at hread
    · cases hread
      exact hd
    · obtain ⟨next, hset, he⟩ := exists_of_map_eq_ok hread
      cases he
      exact h.set hd hset
  · split at hread
    · obtain ⟨next, hturn, he⟩ := exists_of_map_eq_ok hread
      cases he
      exact h.turnOn hd hturn
    · cases hread
  · cases hread

theorem readLetters (h : KeptByArguments P) {cs : List Char} (hd : P d)
    (hread : CommandLine.readLetters cs d = .ok (d', expected)) : P d' := by
  induction cs generalizing d with
  | nil =>
    cases hread
    exact hd
  | cons c cs ih =>
    unfold CommandLine.readLetters at hread
    split at hread
    · split at hread
      · cases hread
        exact hd
      · obtain ⟨next, hset, he⟩ := exists_of_map_eq_ok hread
        cases he
        exact h.set hd hset
    · obtain ⟨next, hturn, hread⟩ := exists_of_bind_eq_ok hread
      exact ih (h.turnOn hd hturn) hread
    · cases hread

theorem addAll (h : KeptByArguments P) {rest : List String} (hd : P d)
    (hadd : rest.foldlM Draft.add d = .ok d') : P d' := by
  induction rest generalizing d with
  | nil =>
    cases hadd
    exact hd
  | cons argument rest ih =>
    obtain ⟨next, hnow, hadd⟩ := exists_of_bind_eq_ok hadd
    exact ih (h.add hd hnow) hadd

theorem read (h : KeptByArguments P) {arguments : List String} (hd : P d)
    (hread : CommandLine.read expected arguments d = .ok d') : P d' := by
  induction arguments generalizing expected d with
  | nil =>
    cases expected with
    | some p => cases hread
    | none =>
      cases hread
      exact hd
  | cons argument rest ih =>
    cases expected with
    | some p =>
      simp only [CommandLine.read] at hread
      split at hread
      · cases hread
      · obtain ⟨next, hset, hread⟩ := exists_of_bind_eq_ok hread
        exact ih (h.set hd hset) hread
    | none =>
      simp only [CommandLine.read] at hread
      split at hread
      · exact h.addAll hd hread
      · obtain ⟨⟨next, expected⟩, hname, hread⟩ := exists_of_bind_eq_ok hread
        exact ih (h.readName hd hname) hread
      · obtain ⟨⟨next, expected⟩, hletters, hread⟩ := exists_of_bind_eq_ok hread
        exact ih (h.readLetters hd hletters) hread
      · obtain ⟨next, hadd, hread⟩ := exists_of_bind_eq_ok hread
        exact ih (h.add hd hadd) hread

end KeptByArguments

structure Draft.Counted (d : Draft) : Prop where
  maxEvents : ∀ n, d.maxEvents? = some n → n < 0x10000000000000000
  queueCapacity : ∀ n, d.queueCapacity? = some n → n < 0x10000000000000000
  chunkSize : ∀ n, d.chunkSize? = some n → n < 0x10000000000000000

theorem lt_of_count? {text : String} {n : Nat} (h : count? text = some n) :
    n < 0x10000000000000000 := by
  simpa using (Option.filter_eq_some_iff.1 h).2

theorem exists_of_once {α : Type} {p : Parameter} {value : String} {given : Option α}
    {read : String → Option α} {r : Option α} (h : once p value given read = .ok r) :
    ∃ a, read value = some a ∧ r = some a := by
  unfold once at h
  split at h
  · cases h
  · split at h
    · cases h
      exact ⟨_, ‹_›, rfl⟩
    · cases h

theorem lt_of_once {p : Parameter} {value : String} {given r : Option Nat}
    (h : once p value given count? = .ok r) (n : Nat) (hn : r = some n) :
    n < 0x10000000000000000 := by
  obtain ⟨a, hread, rfl⟩ := exists_of_once h
  cases hn
  exact lt_of_count? hread

theorem keptByArguments_counted : KeptByArguments Draft.Counted where
  set {d d' p value} hd h := by
    unfold Draft.set at h
    cases p with
    | device | special | imu | maxInterval | width | height =>
      obtain ⟨_, -, h⟩ := exists_of_bind_eq_ok h
      cases h
      exact ⟨hd.maxEvents, hd.queueCapacity, hd.chunkSize⟩
    | maxEvents =>
      obtain ⟨_, hread, h⟩ := exists_of_bind_eq_ok h
      cases h
      exact ⟨lt_of_once hread, hd.queueCapacity, hd.chunkSize⟩
    | queueCapacity =>
      obtain ⟨_, hread, h⟩ := exists_of_bind_eq_ok h
      cases h
      exact ⟨hd.maxEvents, lt_of_once hread, hd.chunkSize⟩
    | chunkSize =>
      obtain ⟨_, hread, h⟩ := exists_of_bind_eq_ok h
      cases h
      exact ⟨hd.maxEvents, hd.queueCapacity, lt_of_once hread⟩
  turnOn {d d' s} hd h := by
    unfold Draft.turnOn at h
    cases s with
    | quiet | verbose =>
      dsimp only at h
      split at h
      · cases h
      · cases h
        exact ⟨hd.maxEvents, hd.queueCapacity, hd.chunkSize⟩
    | version | help => cases h
  add {d d' argument} hd h := by
    unfold Draft.add at h
    split at h
    · cases h
    · split at h <;> cases h <;> exact ⟨hd.maxEvents, hd.queueCapacity, hd.chunkSize⟩

end CommandLine

structure Settings.Counted (s : Settings) : Prop where
  maxEvents_lt : s.maxEvents < 0x10000000000000000
  queueCapacity_lt : s.queueCapacity < 0x10000000000000000
  transferSize_lt : s.transferSize < 0x10000000000000000

namespace CommandLine

theorem getD_lt {n? : Option Nat} {usual : Nat} (h : ∀ n, n? = some n → n < 0x10000000000000000)
    (husual : usual < 0x10000000000000000) : n?.getD usual < 0x10000000000000000 := by
  cases n? with
  | none => exact husual
  | some n => exact h n rfl

theorem Draft.Counted.settings {d : Draft} {c : Command} (hd : d.Counted)
    (h : d.command = .ok c) : c.settings.Counted := by
  unfold Draft.command at h
  split at h
  · split at h
    · obtain ⟨array?, -, h⟩ := exists_of_bind_eq_ok h
      cases h
      exact ⟨getD_lt hd.maxEvents (by decide), getD_lt hd.queueCapacity (by decide),
        getD_lt hd.chunkSize (by decide)⟩
    · cases h
  · cases h

/-- Whatever replay the arguments ask for, the counts among its settings have 64 bits. -/
theorem counted_of_request {arguments : List String} {c : Command}
    (h : request arguments = .ok (.replay c)) : c.settings.Counted := by
  unfold request at h
  split at h
  · rename_i d hread
    have hnone : Draft.Counted {} := by
      constructor <;> exact fun _ h => by cases h
    obtain ⟨c', hcommand, he⟩ := exists_of_map_eq_ok h
    cases he
    exact (keptByArguments_counted.read hnone hread).settings hcommand
  · cases h
  · cases h
  · cases h

end CommandLine

end EventCamera
