import EventCamera.Proofs.Order
import EventCamera.Wire.DvXplorer.Encode

/-! # The window of a container

A DVXplorer sends its ticks in units of their own, so that nothing is added while the time moves on.
What waits to be sealed lies within the interval that ends at the deadline, and so does every sealed
container. -/

namespace EventCamera

/-- A time of the interval that ends at a deadline. -/
def InWindow (interval deadline time : Int) : Prop :=
  deadline - interval < time ∧ time ≤ deadline

theorem InWindow.sub_lt {interval deadline time time' : Int} (h : InWindow interval deadline time)
    (h' : InWindow interval deadline time') : time - time' < interval := by
  have := h.2
  have := h'.1
  omega

/-- Any two events that are no markers of a change of epoch are less than an interval apart. -/
def Container.Narrow (c : Container) (interval : Int) : Prop :=
  ∀ k k', ∀ e ∈ c.stamped k, ∀ e' ∈ c.stamped k', k.isWrap e.1 = false → k'.isWrap e'.1 = false →
    k.fullTime e - k'.fullTime e' < interval

instance {c : Container} {interval : Int} : Decidable (c.Narrow interval) :=
  inferInstanceAs (Decidable (∀ k k', ∀ e ∈ c.stamped k, ∀ e' ∈ c.stamped k', _ → _ → _))

/-! ## Deadlines -/

namespace Clock

variable {c : Clock} {interval deadline : Int}

/-- The full time is past the start of the interval that ends at the deadline. -/
def Opened (c : Clock) (interval : Int) : Prop :=
  ∃ deadline, c.deadline = some deadline ∧ deadline - interval < c.full

/-- The full time is in the interval that ends at the deadline. -/
def Windowed (c : Clock) (interval : Int) : Prop :=
  ∃ deadline, c.deadline = some deadline ∧ InWindow interval deadline c.full

theorem Opened.windowed (h : c.Opened interval) (hdue : c.isDue = false) :
    c.Windowed interval := by
  obtain ⟨deadline, hdeadline, hlt⟩ := h
  refine ⟨deadline, hdeadline, hlt, ?_⟩
  rw [Bool.eq_false_iff, Ne, isDue_of_some hdeadline] at hdue
  omega

/-- A deadline is set so that the time is the first of the interval. -/
theorem opened_arm (h : c.deadline = none) (hfull : c.full = c.current) (hpos : 1 ≤ interval) :
    (c.arm interval).Opened interval := by
  have heq : c.arm interval = { c with deadline := some (c.current + max interval 1 - 1) } := by
    simp only [arm, h]
  rw [heq]
  refine ⟨_, rfl, ?_⟩
  change _ < c.full
  rw [hfull, Int.max_eq_left hpos]
  omega

/-- The deadline is moved on by so many intervals that the full time is in the last of them. -/
theorem Opened.postpone (h : c.Opened interval) (hpos : 1 ≤ interval) :
    (c.postpone interval).Windowed interval := by
  obtain ⟨deadline, hdeadline, hlt⟩ := h
  by_cases hdue : deadline < c.full
  · have hquot := Int.ediv_mul_le (c.full - deadline + interval - 1) (Int.ne_of_gt hpos)
    have hrest := Int.lt_ediv_add_one_mul_self (c.full - deadline + interval - 1) hpos
    rw [Int.add_mul, Int.one_mul] at hrest
    simp only [Clock.postpone, hdeadline, if_pos hdue, Int.max_eq_left hpos]
    refine ⟨_, rfl, ?_⟩
    change InWindow interval _ c.full
    generalize (c.full - deadline + interval - 1) / interval * interval = moved at hquot hrest ⊢
    exact ⟨by omega, by omega⟩
  · simp only [Clock.postpone, hdeadline, if_neg hdue]
    exact ⟨deadline, hdeadline, hlt, Int.not_lt.1 hdue⟩

end Clock

namespace Mark

variable {m : Mark} {c : Clock} {interval deadline : Int}

theorem deadline_move (h : c.deadline = some deadline) (hne : m ≠ .reset) (interval : Int) :
    (m.move interval c).deadline = some deadline := by
  have hwrap (multiplier : UInt32) : (c.wrap multiplier).deadline = some deadline :=
    (c.deadline_wrap multiplier).trans h
  cases m with
  | silent => exact h
  | tick ticks =>
    have htick : (c.tick (.ofNat ticks)).deadline = some deadline := h
    rw [move, Clock.arm_of_some htick, htick]
  | turns count =>
    rw [move]
    split
    · exact hwrap _
    · rw [Clock.arm_of_some (hwrap _), hwrap]
  | reset => exact absurd rfl hne

/-- A time that goes forward stays past the start of the interval. A reset starts a new one. -/
theorem opened_move (h : c.Opened interval) (hpos : 1 ≤ interval)
    (hle : m ≠ .reset → c.full ≤ (m.move interval c).full) : (m.move interval c).Opened interval := by
  by_cases hreset : m = .reset
  · subst hreset
    have hfull : c.reset.full = c.reset.current := show fullTime 0 0 = 0 by decide
    exact Clock.opened_arm rfl hfull hpos
  · obtain ⟨deadline, hdeadline, hlt⟩ := h
    exact ⟨deadline, deadline_move hdeadline hreset interval, Int.lt_of_lt_of_le hlt (hle hreset)⟩

end Mark

namespace Camera

variable {c : Camera}

theorem opened_first {unit : List UInt8} (hm : c.mark unit ≠ .silent) {interval : Int}
    (hpos : 1 ≤ interval) : ((c.mark unit).move interval c.device.clock).Opened interval := by
  have hstart := Clock.tells_start c
  cases h : c.mark unit with
  | silent => exact absurd h hm
  | tick ticks => exact Clock.opened_arm rfl ((hstart.tick (ticks_lt h)).full_eq_current rfl) hpos
  | turns count =>
    have hends := hstart.not_endsEpoch_of_base rfl (count_lt h)
    have hwrap := hstart.wrap (count_lt h)
    rw [Mark.move, if_neg hends]
    rw [Clock.wrap, if_neg hends] at hwrap ⊢
    exact Clock.opened_arm rfl (hwrap.full_eq_current rfl) hpos
  | reset => exact Clock.opened_arm rfl (hstart.reset.full_eq_current rfl) hpos

/-- Units that tell the time from the first one on. The time goes forward and fits its counters. -/
structure Regular (c : Camera) (units : List (List UInt8)) : Prop where
  first : ∀ unit ∈ units.head?, c.mark unit ≠ .silent
  forward : c.Forward units
  inRange : c.InRange units

theorem Regular.of_prefix {units past : List (List UInt8)} (h : c.Regular units)
    (hp : past <+: units) : c.Regular past := by
  refine ⟨fun unit hunit => h.first unit ?_, h.forward.of_prefix hp, h.inRange.of_prefix hp⟩
  obtain ⟨later, rfl⟩ := hp
  rw [Option.mem_def, List.head?_append, Option.mem_def.1 hunit]
  rfl

end Camera

/-! ## Steps -/

namespace Decoder

variable {dev : Device} {a : Applied dev} {s : Settled dev} {interval deadline : Int}

/-- The time is in the interval that ends at the deadline, and so are the events that wait. -/
def Windowed (d : Decoder dev) (interval : Int) : Prop :=
  ∃ deadline, d.clock.deadline = some deadline ∧ InWindow interval deadline d.clock.full ∧
    ∀ k, ∀ e ∈ (d.buffer k).stamped, k.isWrap e.1 = false →
      InWindow interval deadline (k.fullTime e)

theorem Windowed.isDue_eq {d : Decoder dev} (h : d.Windowed interval) : d.clock.isDue = false := by
  obtain ⟨deadline, hdeadline, ⟨-, hle⟩, -⟩ := h
  rw [Bool.eq_false_iff, Ne, Clock.isDue_of_some hdeadline]
  omega

/-- What was applied left all events in the interval that ends at a deadline. If nothing is forced,
the clock has still this deadline. -/
structure Framed (a : Applied dev) (interval deadline : Int) : Prop where
  opened : a.decoder.clock.Opened interval
  deadline_eq : a.result = .ok none → a.decoder.clock.deadline = some deadline
  events : ∀ k, ∀ e ∈ (a.decoder.buffer k).stamped, k.isWrap e.1 = false →
    InWindow interval deadline (k.fullTime e)
  interval_eq : a.decoder.collector.interval = interval

theorem Windowed.framed {d : Decoder dev} (h : d.Windowed interval)
    (hinterval : d.collector.interval = interval) :
    ∃ deadline, Framed { decoder := d } interval deadline := by
  obtain ⟨deadline, hdeadline, ⟨hlt, -⟩, hevents⟩ := h
  exact ⟨deadline, ⟨deadline, hdeadline, hlt⟩, fun _ => hdeadline, hevents, hinterval⟩

theorem Made.narrow (h : Made a s) (hframed : Framed a interval deadline) {c : Container}
    (hc : .data c ∈ s.handedOn) : c.Narrow interval := by
  intro k k' e he e' he' hwrap hwrap'
  rw [h.stamped_of_mem hc] at he he'
  exact (hframed.events k e he hwrap).sub_lt (hframed.events k' e' he' hwrap')

/-- A step leaves what waits in the interval that ends at the deadline. -/
theorem Made.windowed (h : Made a s) (hok : s.result.isOk) (hframed : Framed a interval deadline)
    (hpos : 1 ≤ interval) (hdue : s.result = .ok none → a.decoder.clock.isDue = false) :
    s.decoder.Windowed interval := by
  cases h.completed hok with
  | kept ha hd hr =>
    obtain ⟨deadline', hdeadline, hwindow⟩ := hframed.opened.windowed (hdue hr)
    obtain rfl := Option.some.inj (hdeadline.symm.trans (hframed.deadline_eq ha))
    rw [hd]
    exact ⟨deadline', hdeadline, hwindow, hframed.events⟩
  | sealed _ ht _ =>
    have hpostponed := hframed.opened.postpone hpos
    rw [← hframed.interval_eq] at hpostponed ⊢
    obtain ⟨deadline', hdeadline, hwindow⟩ := hpostponed
    have hclock : s.decoder.clock = _ := ht.clock_eq
    refine ⟨deadline', hclock ▸ hdeadline, hclock ▸ hwindow, fun k e he => ?_⟩
    have hnone : (s.decoder.buffer k).stamped = [] := Buffer.isEmpty_iff.1 (ht.fresh_isEmpty k)
    rw [hnone] at he
    cases he

end Decoder

/-! ## Units -/

namespace Ledger

section Camera

variable {c : Camera} {b : Ledger c.device}

/-- What is added beside a silent mark has the time of the clock. -/
theorem EventsTimed.fullTime_of_silent (h : b.EventsTimed) {unit : List UInt8}
    (hm : c.mark unit = .silent)
    {k : EventKind} {a : Added k} (ha : a ∈ b.addedBy unit k) :
    k.fullTime a.stamped = b.decoder.clock.full := by
  obtain ⟨body, hleads⟩ := c.leads b.decoder.device unit
  rw [hm] at hleads
  obtain ⟨-, hepoch, -, htime⟩ := Decoder.mem_additions_beside hleads rfl ha
  have hbuffer : a.epoch = b.decoder.clock.epoch := hepoch.trans (h.epoch_eq k)
  rw [EventKind.fullTime, Added.stamped, hbuffer, htime]
  rfl

end Camera

variable {g : Geometry} {b : Ledger (Camera.dvXplorer g).device} {interval : Int}

theorem isWrap_of_addedBy {unit : List UInt8} (hm : (Camera.dvXplorer g).mark unit ≠ .silent)
    {k : EventKind} {a : Added k} (ha : a ∈ b.addedBy unit k) : k.isWrap a.record := by
  have hcodes : ((Camera.dvXplorer g).device.classify b.decoder.device unit).codes =
      ((Camera.dvXplorer g).mark unit).codes :=
    Wire.DvXplorer.codes_of_mark g b.decoder.device hm
  rw [addedBy, hcodes] at ha
  cases h : (Camera.dvXplorer g).mark unit with
  | silent => exact absurd h hm
  | tick | reset =>
    rw [h] at ha
    cases ha
  | turns count =>
    rw [h] at ha
    exact (Decoder.mem_additions_turns (c := .dvXplorer g) ha).2.2.2.1

/-- The windows of a run: before its first unit nothing was added, and afterwards everything that waits
lies in the interval that ends at the deadline, as does every sealed container. -/
structure KeepsWindows (b : Ledger (Camera.dvXplorer g).device) (interval : Int) : Prop where
  interval_eq : b.decoder.collector.interval = interval
  unstarted : b.units = [] →
    b.decoder.clock = (Camera.dvXplorer g).device.clock ∧ ∀ k, (b.decoder.buffer k).isEmpty
  windowed : b.units ≠ [] → b.decoder.Windowed interval
  narrow : ∀ container, .data container ∈ b.sealed → container.Narrow interval

/-- The codes of a unit leave what waits in one interval. -/
theorem KeepsWindows.framed_unit (h : b.KeepsWindows interval) (htimed : b.EventsTimed)
    (hpos : 1 ≤ interval)
    {unit : List UInt8} (hfirst : b.units = [] → (Camera.dvXplorer g).mark unit ≠ .silent)
    (hle : (Camera.dvXplorer g).mark unit ≠ .reset → b.decoder.clock.full ≤
      (((Camera.dvXplorer g).mark unit).move b.decoder.collector.interval b.decoder.clock).full) :
    ∃ deadline, Decoder.Framed (b.decoder.applyUnit unit) interval deadline := by
  obtain ⟨body, hleads⟩ := (Camera.dvXplorer g).leads b.decoder.device unit
  have hclock := b.clock_applyUnit unit
  have hinterval : (b.decoder.applyUnit unit).decoder.collector.interval = interval :=
    (Decoder.keptByCodes_interval interval).applyUnit h.interval_eq unit
  have hstamped := b.stamped_applyUnit unit
  have hmarker (hm : (Camera.dvXplorer g).mark unit ≠ .silent) {k : EventKind}
      {e : k.Record × Int} (he : e ∈ (b.addedBy unit k).map Added.stamped)
      (hwrap : k.isWrap e.1 = false) : False := by
    obtain ⟨a, ha, rfl⟩ := List.mem_map.1 he
    exact absurd (isWrap_of_addedBy hm ha) (ne_true_of_eq_false hwrap)
  rw [h.interval_eq] at hclock hle
  by_cases hunits : b.units = []
  · obtain ⟨hstart, hempty⟩ := h.unstarted hunits
    have hopened := Camera.opened_first (hfirst hunits) hpos
    rw [← hstart, ← hclock] at hopened
    obtain ⟨deadline, hdeadline, hlt⟩ := hopened
    refine ⟨deadline, ⟨deadline, hdeadline, hlt⟩, fun _ => hdeadline, fun k e he hwrap => ?_,
      hinterval⟩
    rw [hstamped, Buffer.isEmpty_iff.1 (hempty k), List.nil_append] at he
    exact (hmarker (hfirst hunits) he hwrap).elim
  · obtain ⟨deadline, hdeadline, hwindow, hevents⟩ := h.windowed hunits
    refine ⟨deadline, ?_, fun hnone => ?_, fun k e he hwrap => ?_, hinterval⟩
    · rw [hclock]
      exact Mark.opened_move ⟨deadline, hdeadline, hwindow.1⟩ hpos hle
    · have hquiet := Decoder.forced_forEach_leads hleads hnone
      rw [hclock]
      refine Mark.deadline_move hdeadline (fun hreset => ?_) interval
      rw [hreset] at hquiet
      cases hquiet
    · rw [hstamped] at he
      rcases List.mem_append.1 he with he | he
      · exact hevents k e he hwrap
      · by_cases hm : (Camera.dvXplorer g).mark unit = .silent
        · obtain ⟨a, ha, rfl⟩ := List.mem_map.1 he
          rw [htimed.fullTime_of_silent hm ha]
          exact hwindow
        · exact (hmarker hm he hwrap).elim

theorem KeepsWindows.narrow_append (h : b.KeepsWindows interval) {m : Move}
    (hmade : ∀ container, .data container ∈ (b.decoder.make m).handedOn →
      container.Narrow interval) :
    ∀ container, .data container ∈ b.sealed ++ (b.decoder.make m).handedOn →
      container.Narrow interval := by
  intro container hc
  rcases List.mem_append.1 hc with hc | hc
  · exact h.narrow container hc
  · exact hmade container hc

/-- Sealing the rest before the first unit leaves everything as it was. -/
theorem KeepsWindows.unstarted_rest (h : b.KeepsWindows interval) (hunits : b.units = [])
    (hok : (b.decoder.make .rest).result.isOk) :
    (b.decoder.make .rest).decoder.clock = (Camera.dvXplorer g).device.clock ∧
      ∀ k, ((b.decoder.make .rest).decoder.buffer k).isEmpty := by
  obtain ⟨hclock, hempty⟩ := h.unstarted hunits
  cases (b.decoder.make_made .rest).completed hok with
  | kept _ hd _ =>
    rw [hd]
    exact ⟨hclock, hempty⟩
  | sealed _ ht _ =>
    have hpostponed : (b.decoder.make .rest).decoder.clock =
        b.decoder.clock.postpone b.decoder.collector.interval := ht.clock_eq
    refine ⟨?_, ht.fresh_isEmpty⟩
    rw [hpostponed, hclock]
    rfl

theorem KeepsWindows.advance (h : b.KeepsWindows interval) (htimed : b.EventsTimed)
    (hpos : 1 ≤ interval) {m : Move}
    (hok : (b.decoder.make m).result.isOk)
    (hunit : ∀ unit ∈ m.unit?, (b.units = [] → (Camera.dvXplorer g).mark unit ≠ .silent) ∧
      ((Camera.dvXplorer g).mark unit ≠ .reset → b.decoder.clock.full ≤
        (((Camera.dvXplorer g).mark unit).move b.decoder.collector.interval
          b.decoder.clock).full)) : (b.advance m).KeepsWindows interval := by
  have hmade := b.decoder.make_made m
  have hinterval := (Decoder.interval_make b.decoder m).trans h.interval_eq
  cases m with
  | unit unit =>
    obtain ⟨hfirst, hle⟩ := hunit unit rfl
    obtain ⟨deadline, hframed⟩ := h.framed_unit htimed hpos hfirst hle
    exact ⟨hinterval, fun hunits => absurd hunits (by simp [Ledger.advance]),
      fun _ => hmade.windowed hok hframed hpos fun hr => (Decoder.atRest_of_settled hr).not_isDue,
      h.narrow_append fun _ => hmade.narrow hframed⟩
  | rest =>
    by_cases hunits : b.units = []
    · have hempty := (h.unstarted hunits).2
      refine ⟨hinterval, fun _ => h.unstarted_rest hunits hok, fun hne => absurd hunits hne,
        h.narrow_append fun container hc k _ e he => ?_⟩
      rw [hmade.stamped_of_mem hc] at he
      exact absurd he (by simp [Decoder.moved, Buffer.isEmpty_iff.1 (hempty k)])
    · have hwindowed := h.windowed hunits
      obtain ⟨deadline, hframed⟩ := hwindowed.framed h.interval_eq
      exact ⟨hinterval, fun hnil => absurd hnil hunits,
        fun _ => hmade.windowed hok hframed hpos fun _ => hwindowed.isDue_eq,
        h.narrow_append fun _ => hmade.narrow hframed⟩

theorem KeepsWindows.count (h : b.KeepsWindows interval) (hs : List Handover) :
    (b.count hs).KeepsWindows interval :=
  ⟨h.interval_eq, h.unstarted, h.windowed, h.narrow⟩

theorem keepsWindows_start {settings : Settings} {d : Decoder (Camera.dvXplorer g).device}
    (h : Decoder.start (Camera.dvXplorer g).device settings = .ok d) :
    KeepsWindows { decoder := d } settings.maxInterval := by
  have hfresh := Decoder.start_ok h
  exact ⟨hfresh.interval_eq, fun _ => ⟨hfresh.clock_eq, hfresh.isEmpty⟩,
    fun hne => absurd rfl hne, nofun⟩

/-- While no step fails, a run over regular units keeps its windows. -/
theorem Succeeds.keepsWindows {moves : List Move} (h : b.Succeeds moves) (hpos : 1 ≤ interval)
    (htimed : b.EventsTimed) (hwindowed : b.KeepsWindows interval)
    (hregular : (Camera.dvXplorer g).Regular (b.run moves).units) :
    (b.run moves).KeepsWindows interval := by
  refine h.induction_units (P := (·.KeepsWindows interval)) (Q := (Camera.dvXplorer g).Regular)
    htimed (fun hpast hregular => hregular.of_prefix hpast)
    (fun {b m} hb hearlier hok hregular => ?_) hwindowed hregular
  have hpast := hregular.of_prefix (b.units_prefix_run [m])
  refine hearlier.advance hb hpos hok fun unit hunit => ?_
  cases m with
  | rest => cases hunit
  | unit unit' =>
    cases hunit
    refine ⟨fun hnil => hregular.first unit ?_, fun hne => ?_⟩
    · change (b.units ++ [unit]).head? = some unit
      rw [hnil]
      rfl
    · rw [hb.full_eq (hpast.inRange _ List.prefix_rfl),
        hb.full_unit (hregular.inRange _ List.prefix_rfl)]
      exact hregular.forward b.units unit List.prefix_rfl hne

end Ledger

/-- The windows of a session: every sealed container is narrower than an interval, and after every step
from the first unit on, the time and what waits are in the interval that ends at the deadline. -/
structure Ledger.InWindows {dev : Device} (d : Decoder dev) (interval : Int) (b : Ledger dev)
    (moves : List Move) : Prop where
  narrow : ∀ container, .data container ∈ b.sealed → container.Narrow interval
  windowed : ∀ before, before <+: moves → (({ decoder := d } : Ledger dev).run before).units ≠ [] →
    (({ decoder := d } : Ledger dev).run before).decoder.Windowed interval

/-- As long as no call fails, the containers of a DVXplorer with regular units span less than an
interval each. -/
theorem session_inWindows {g : Geometry} {settings : Settings}
    {d d' : Decoder (Camera.dvXplorer g).device} {calls : List Call} {x x' : Exchange}
    {log : List Occurrence} {results : List (Except DecodeError Unit)}
    (hinterval : 1 ≤ settings.maxInterval)
    (hstart : Decoder.start (Camera.dvXplorer g).device settings = .ok d)
    (h : Execution (session Decoder.call calls d) x log (d', results) x')
    (hok : ∀ r ∈ results, r.isOk) :
    ∃ (b : Ledger (Camera.dvXplorer g).device) (moves : List Move),
      Execution (session Ledger.call calls { decoder := d }) x log (b, results) x' ∧
      b.decoder = d' ∧ b.Flawless d calls log moves ∧
      ((Camera.dvXplorer g).Regular b.units → b.InWindows d settings.maxInterval moves) := by
  obtain ⟨b, moves, hb, hd, hflawless⟩ := Ledger.exists_flawless hstart h hok
  refine ⟨b, moves, hb, hd, hflawless, fun hregular => ?_⟩
  have hrun : ∀ before, before <+: moves →
      (({ decoder := d } : Ledger _).run before).KeepsWindows settings.maxInterval := by
    rintro before ⟨rest, rfl⟩
    refine (Ledger.succeeds_append.1 hflawless.succeeds).1.keepsWindows hinterval
      (Ledger.eventsTimed_start hstart) (Ledger.keepsWindows_start hstart) (hregular.of_prefix ?_)
    rw [hflawless.end_eq, Ledger.run_append]
    exact Ledger.units_prefix_run ..
  refine ⟨?_, fun before hprefix => (hrun before hprefix).windowed⟩
  rw [hflawless.end_eq]
  exact ((hrun moves List.prefix_rfl).count _).narrow

open Wire.DvXplorer.Encode in
def sampleReadouts : List Call :=
  [.decode (tick 100 ++ column 3 true ++ groupRows 1 2 ++ group true 5 true ++ wrap 1 ++
      group false 6 false ++ tick 7 ++ group true 1 true),
    .flush, .decode (reset ++ tick 20 ++ special 2), .flush]

theorem session_inWindows_dvXplorer :
    ∃ (d d' : Decoder (Camera.dvXplorer Wire.DvXplorer.fullArray).device) (log : List Occurrence)
      (results : List (Except DecodeError Unit)) (x' : Exchange),
      Decoder.start (Camera.dvXplorer Wire.DvXplorer.fullArray).device {} = .ok d ∧
      Execution (session Decoder.call sampleReadouts d) (.start 3) log (d', results) x' ∧
      (∀ r ∈ results, r.isOk) ∧
      ∃ (b : Ledger (Camera.dvXplorer Wire.DvXplorer.fullArray).device) (moves : List Move),
        Execution (session Ledger.call sampleReadouts { decoder := d }) (.start 3) log (b, results)
          x' ∧
        b.decoder = d' ∧ b.Flawless d sampleReadouts log moves ∧
        b.units = sampleReadouts.flatMap (Call.units 2) ∧ b.InWindows d 10000 moves := by
  have hrun : undisturbed (Camera.dvXplorer Wire.DvXplorer.fullArray).device {} sampleReadouts
      (.start 3) := by decide +kernel
  have hforward : (Camera.dvXplorer Wire.DvXplorer.fullArray).Forward
      (sampleReadouts.flatMap (Call.units 2)) := by decide +kernel
  have hfirst : ∀ unit ∈ (sampleReadouts.flatMap (Call.units 2)).head?,
      (Camera.dvXplorer Wire.DvXplorer.fullArray).mark unit ≠ .silent := by decide +kernel
  have hlength : (sampleReadouts.flatMap (Call.units 2)).length = 11 := by decide +kernel
  obtain ⟨d, d', results, log, x', hd, h, hok, hsteady⟩ := exists_of_undisturbed hrun
  obtain ⟨b, moves, hb, hd', hflawless, hwindows⟩ := session_inWindows (by decide) hd h hok
  have hunits : b.units = sampleReadouts.flatMap (Call.units 2) := hflawless.units_eq hsteady
  refine ⟨d, d', log, results, x', hd, h, hok, b, moves, hb, hd', hflawless, hunits,
    hwindows (hunits ▸ ⟨hfirst, hforward, fun past hpast => ?_⟩)⟩
  have hle := (Camera.dvXplorer Wire.DvXplorer.fullArray).epochs_le_length past
  have := hlength ▸ hpast.length_le
  omega

end EventCamera
