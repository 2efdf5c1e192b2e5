import EventCamera.Proofs.Applying
import EventCamera.Proofs.DeviceTime

/-! # How a unit moves the clock

Only the mark of a unit moves the clock and forces a sealing. The events of the unit are stamped
with the time that the mark leaves. -/

namespace EventCamera

namespace Decoder

variable {dev : Device}

/-! ## Codes that leave the clock alone -/

/-- Something was applied that left the clock alone and forces nothing. -/
structure LeavesClockAlone (d : Decoder dev) (a : Applied dev) : Prop where
  clock_eq : a.decoder.clock = d.clock
  forced_eq : ∀ forced, a.result = .ok forced → forced = none

theorem LeavesClockAlone.of_none {d : Decoder dev} {a : Applied dev} (hclock : a.decoder.clock = d.clock)
    (hresult : a.result = .ok none) : d.LeavesClockAlone a := by
  refine ⟨hclock, fun forced h => ?_⟩
  rw [hresult] at h
  exact (Except.ok.inj h).symm

theorem LeavesClockAlone.andThen {d : Decoder dev} {a : Applied dev} {f : Decoder dev → Applied dev}
    (h : d.LeavesClockAlone a) (hf : a.decoder.LeavesClockAlone (f a.decoder)) :
    d.LeavesClockAlone (Applied.andThen a f) := by
  unfold Applied.andThen
  cases hr : a.result with
  | error e => exact h
  | ok forced =>
    refine ⟨hf.clock_eq.trans h.clock_eq, fun merged hm => ?_⟩
    obtain rfl := h.forced_eq forced hr
    simp only at hm
    cases hr' : (f a.decoder).result with
    | error e =>
      rw [hr'] at hm
      cases hm
    | ok forced' =>
      obtain rfl := hf.forced_eq forced' hr'
      rw [hr'] at hm
      cases hm
      rfl

theorem forEach_leavesClockAlone {α : Type} {f : α → Decoder dev → Applied dev} {as : List α}
    (hf : ∀ a ∈ as, ∀ d : Decoder dev, d.LeavesClockAlone (f a d)) (d : Decoder dev) :
    d.LeavesClockAlone (forEach f as d) := by
  induction as generalizing d with
  | nil => exact .of_none rfl rfl
  | cons a as ih =>
    obtain ⟨hfirst, hrest⟩ := List.forall_mem_cons.1 hf
    exact (hfirst d).andThen (ih hrest _)

theorem push_leavesClockAlone (d : Decoder dev) (k : EventKind) (event : k.Record)
    (notices : List Notice) :
    d.LeavesClockAlone (d.push k event notices none) := by
  unfold push
  split
  · exact .of_none rfl rfl
  · exact ⟨rfl, nofun⟩

theorem pushPixel_leavesClockAlone (d : Decoder dev) (x y : UInt16) (on : Bool) :
    d.LeavesClockAlone (d.pushPixel x y on) := by
  unfold pushPixel
  split
  · exact d.push_leavesClockAlone ..
  · exact .of_none rfl rfl

theorem LeavesClockAlone.of_clock {d d' : Decoder dev} {a : Applied dev} (h : d'.LeavesClockAlone a)
    (hclock : d'.clock = d.clock) : d.LeavesClockAlone a :=
  ⟨h.clock_eq.trans hclock, h.forced_eq⟩

theorem pushGroup_leavesClockAlone (d : Decoder dev) (x base : UInt16) (mask : UInt8) (on : Bool) :
    d.LeavesClockAlone (d.pushGroup x base mask on) := by
  unfold pushGroup
  split
  · exact (forEach_leavesClockAlone (fun y _ d => d.pushPixel_leavesClockAlone x y on) _).of_clock rfl
  · exact ⟨rfl, nofun⟩

theorem applyComposite_leavesClockAlone (d : Decoder dev) (kind : CompositeKind) (step : CompositeStep) :
    d.LeavesClockAlone (d.applyComposite kind step) := by
  simp only [applyComposite]
  cases (dev.compose d.device kind step d.clock.current).outcome with
  | complete event => exact (push_leavesClockAlone { d with device := _ } ..).of_clock rfl
  | mismatch | pending | ignored => exact .of_none rfl rfl

theorem apply_leavesClockAlone {code : Code} (hplain : code.Plain) (d : Decoder dev) :
    d.LeavesClockAlone (apply code d) := by
  cases code with
  | tick | wrap | reset => exact hplain.elim
  | pixel x y on => exact d.pushPixel_leavesClockAlone x y on
  | group x base mask on => exact d.pushGroup_leavesClockAlone x base mask on
  | special kind data => exact d.push_leavesClockAlone ..
  | composite kind step => exact d.applyComposite_leavesClockAlone kind step

theorem epoch_forEach_apply (codes : List Code) (d : Decoder dev) (k : EventKind) :
    ((forEach apply codes d).decoder.buffer k).epoch = (d.buffer k).epoch := by
  induction codes generalizing d with
  | nil => rfl
  | cons code codes ih =>
    have hfirst := (apply_adds code d).epoch_eq k
    unfold forEach Applied.andThen
    split
    · exact hfirst
    · exact (ih _).trans hfirst

end Decoder

/-! ## Marks -/

def EventKind.isMarker : (k : EventKind) → k.Record → Bool
  | .special, e => SpecialEvent.kind e == .timestampWrap || SpecialEvent.kind e == .timestampReset
  | .polarity, _ | .frame, _ | .imu6, _ => false

def EventKind.isReset : (k : EventKind) → k.Record → Bool
  | .special, e => SpecialEvent.kind e == .timestampReset
  | .polarity, _ | .frame, _ | .imu6, _ => false

def EventKind.isWrap : (k : EventKind) → k.Record → Bool
  | .special, e => SpecialEvent.kind e == .timestampWrap
  | .polarity, _ | .frame, _ | .imu6, _ => false

theorem EventKind.isMarker_eq (k : EventKind) (r : k.Record) :
    k.isMarker r = (k.isWrap r || k.isReset r) := by
  cases k <;> rfl

namespace Mark

/-- The clock after the codes of a mark. The end of an epoch leaves the deadline to the sealing that
it forces. -/
def move (m : Mark) (interval : Int) (c : Clock) : Clock :=
  match m with
  | .silent => c
  | .tick ticks => (c.tick (.ofNat ticks)).arm interval
  | .turns count =>
    if c.endsEpoch (.ofNat count) then c.wrap (.ofNat count)
    else (c.wrap (.ofNat count)).arm interval
  | .reset => c.reset.arm interval

/-- What a mark forces. -/
def forces (m : Mark) (c : Clock) : Option Forced :=
  match m with
  | .silent | .tick _ => none
  | .turns count => if c.endsEpoch (.ofNat count) then some .epochEnd else none
  | .reset => some .reset

end Mark

namespace Decoder

theorem andThen_of_none {dev : Device} {a : Applied dev} (h : a.result = .ok none)
    (f : Decoder dev → Applied dev) :
    (Applied.andThen a f).decoder = (f a.decoder).decoder ∧
      (Applied.andThen a f).result = (f a.decoder).result := by
  simp only [Applied.andThen, h, true_and]
  cases (f a.decoder).result with
  | error e => rfl
  | ok forced => rcases forced with _ | _ | _ <;> rfl

theorem forEach_singleton {dev : Device} {α : Type} (f : α → Decoder dev → Applied dev) (a : α)
    (d : Decoder dev) : (forEach f [a] d).decoder = (f a d).decoder ∧
      (forEach f [a] d).result = (f a d).result := by
  simp only [forEach, Applied.andThen]
  cases hr : (f a d).result with
  | error e => exact ⟨rfl, hr⟩
  | ok forced => rcases forced with _ | _ | _ <;> exact ⟨rfl, rfl⟩

theorem clock_apply_wrap {dev : Device} (d : Decoder dev) (multiplier : UInt32) :
    (apply (.wrap multiplier) d).decoder.clock =
      if d.clock.endsEpoch multiplier then d.clock.wrap multiplier
      else (d.clock.wrap multiplier).arm d.collector.interval := by
  simp only [apply]
  split
  · unfold push
    split <;> rfl
  · rfl

theorem forced_apply_wrap {dev : Device} {d : Decoder dev} {multiplier : UInt32}
    {forced : Option Forced} (hr : (apply (.wrap multiplier) d).result = .ok forced) :
    forced = if d.clock.endsEpoch multiplier then some .epochEnd else none := by
  simp only [apply] at hr
  by_cases hends : d.clock.endsEpoch multiplier
  · simp only [if_pos hends, push] at hr ⊢
    split at hr
    · exact (Except.ok.inj hr).symm
    · cases hr
  · simp only [if_neg hends] at hr ⊢
    exact (Except.ok.inj hr).symm

/-- The codes of a unit move the clock as its mark says, also if they fail. -/
theorem clock_forEach_leads {dev : Device} {m : Mark} {codes body : List Code}
    (h : m.Leads codes body) (d : Decoder dev) :
    (forEach apply codes d).decoder.clock = m.move d.collector.interval d.clock := by
  rw [h.codes_eq]
  have hleaves (d : Decoder dev) :=
    forEach_leavesClockAlone (fun code hc => apply_leavesClockAlone (h.plain code hc)) d
  cases m with
  | silent => exact (hleaves d).clock_eq
  | tick ticks =>
    obtain ⟨hdecoder, -⟩ := andThen_of_none (a := apply (.tick (.ofNat ticks)) d) rfl
      (forEach apply body)
    exact (congrArg clock hdecoder).trans (hleaves _).clock_eq
  | turns count =>
    rw [h.alone rfl]
    obtain ⟨hdecoder, -⟩ := forEach_singleton apply (.wrap (.ofNat count)) d
    exact (congrArg clock hdecoder).trans (clock_apply_wrap d (.ofNat count))
  | reset =>
    rw [h.alone rfl]
    rfl

/-- The codes of a unit force what its mark forces. -/
theorem forced_forEach_leads {dev : Device} {m : Mark} {codes body : List Code}
    (h : m.Leads codes body) {d : Decoder dev} {forced : Option Forced}
    (hr : (forEach apply codes d).result = .ok forced) : forced = m.forces d.clock := by
  rw [h.codes_eq] at hr
  have hleaves (d : Decoder dev) :=
    forEach_leavesClockAlone (fun code hc => apply_leavesClockAlone (h.plain code hc)) d
  cases m with
  | silent => exact (hleaves d).forced_eq forced hr
  | tick ticks =>
    obtain ⟨-, hresult⟩ := andThen_of_none (a := apply (.tick (.ofNat ticks)) d) rfl
      (forEach apply body)
    exact (hleaves _).forced_eq forced (hresult.symm.trans hr)
  | turns count =>
    rw [h.alone rfl] at hr
    obtain ⟨-, hresult⟩ := forEach_singleton apply (.wrap (.ofNat count)) d
    exact forced_apply_wrap (hresult.symm.trans hr)
  | reset =>
    rw [h.alone rfl] at hr
    exact (Except.ok.inj hr).symm

/-! ## Stamps -/

theorem of_mem_only {P : (k : EventKind) → k.Record → Prop} {k l : EventKind}
    {records : List k.Record} {r : l.Record} (hP : ∀ r ∈ records, P k r)
    (hr : r ∈ only k records l) : P l r := by
  by_cases h : k = l
  · subst h
    rw [only_self] at hr
    exact hP r hr
  · rw [only_of_ne records h] at hr
    cases hr

theorem isMarker_of_ne {k : EventKind} (h : k ≠ .special) (r : k.Record) :
    k.isMarker r = false := by
  cases k with
  | special => exact absurd rfl h
  | polarity | frame | imu6 => rfl

variable {c : Camera}

/-- An event that is no marker and carries the given time. -/
def Stamped (time : Int) (k : EventKind) (r : k.Record) : Prop :=
  k.isMarker r = false ∧ k.time r = time

/-- What a plain code adds is stamped with the current time. -/
theorem asked_plain {d : Decoder c.device} {code : Code} (hplain : code.Plain) {k : EventKind}
    {r : k.Record} (hr : r ∈ d.asked code k) : Stamped d.clock.current k r := by
  have hpixels (x : UInt16) (rows : List UInt16) (on : Bool)
      (hr : r ∈ only .polarity (d.pixelsAt x rows on) k) : Stamped d.clock.current k r := by
    refine of_mem_only (P := Stamped d.clock.current) (fun event he => ?_) hr
    obtain ⟨y, -, rfl⟩ := List.mem_map.1 he
    exact ⟨rfl, rfl⟩
  cases code with
  | tick | wrap | reset => exact hplain.elim
  | pixel x y on => exact hpixels x [y] on hr
  | group x base mask on => exact hpixels x (rowsOf base mask) on hr
  | special kind data =>
    refine of_mem_only (P := Stamped d.clock.current) (List.forall_mem_singleton.2 ⟨?_, rfl⟩) hr
    simpa [EventKind.isMarker, Code.Plain] using hplain
  | composite kind step =>
    simp only [asked] at hr
    cases hevent : (c.device.compose d.device kind step d.clock.current).outcome with
    | complete event =>
      rw [hevent] at hr
      obtain ⟨hkind, htime⟩ := Camera.time_of_complete hevent
      exact of_mem_only (P := Stamped d.clock.current)
        (List.forall_mem_singleton.2 ⟨isMarker_of_ne hkind _, htime⟩) hr
    | pending | ignored | mismatch =>
      rw [hevent] at hr
      cases hr

theorem mem_additions_plain {body : List Code} (hplain : ∀ code ∈ body, code.Plain)
    {past : List (List UInt8)} {d : Decoder c.device} {k : EventKind} {a : Added k}
    (ha : a ∈ additions past body d k) :
    a.past = past ∧ a.epoch = (d.buffer k).epoch ∧ Stamped d.clock.current k a.record := by
  induction body generalizing d with
  | nil => cases ha
  | cons code body ih =>
    obtain ⟨hcode, hbody⟩ := List.forall_mem_cons.1 hplain
    simp only [additions] at ha
    split at ha
    · cases ha
    · rcases List.mem_append.1 ha with ha | ha
      · obtain ⟨r, hr, rfl⟩ := List.mem_map.1 ha
        exact ⟨rfl, rfl, asked_plain hcode hr⟩
      · have hlater := ih hbody ha
        rwa [(apply_adds code d).epoch_eq, (apply_leavesClockAlone hcode d).clock_eq] at hlater

/-- What a unit adds whose mark leaves room for other codes is no marker, and is stamped with the time
that the mark leaves. -/
theorem mem_additions_beside {m : Mark} {codes body : List Code} (h : m.Leads codes body)
    (hfills : m.fillsUnit = false) {past : List (List UInt8)} {d : Decoder c.device}
    {k : EventKind} {a : Added k} (ha : a ∈ additions past codes d k) :
    a.past = past ∧ a.epoch = (d.buffer k).epoch ∧
      Stamped (m.move d.collector.interval d.clock).current k a.record := by
  rw [h.codes_eq] at ha
  cases m with
  | silent => exact mem_additions_plain h.plain ha
  | tick ticks =>
    exact mem_additions_plain h.plain (d := (d.withClock (·.tick (.ofNat ticks))).arm) ha
  | turns | reset => cases hfills

/-- A wrap adds the marker of the end of an epoch, or nothing. -/
theorem additions_turns {count : Nat} {past : List (List UInt8)} {d : Decoder c.device}
    (hok : (forEach apply (Mark.turns count).codes d).result.isOk) (k : EventKind) :
    additions past (Mark.turns count).codes d k =
      if d.clock.endsEpoch (.ofNat count) then
        (only .special [SpecialEvent.wrap] k).map (⟨·, (d.buffer k).epoch, past⟩)
      else [] := by
  obtain ⟨-, hresult⟩ := forEach_singleton apply (.wrap (.ofNat count)) d
  simp only [Mark.codes] at hok ⊢
  rw [hresult] at hok
  cases hr : (apply (.wrap (.ofNat count)) d).result with
  | error e =>
    rw [hr] at hok
    cases hok
  | ok forced =>
    simp only [additions, hr, asked, List.append_nil]
    by_cases hends : d.clock.endsEpoch (.ofNat count)
    · rw [if_pos hends, if_pos hends]
    · rw [if_neg hends, if_neg hends]
      rfl

theorem mem_additions_turns {count : Nat} {past : List (List UInt8)} {d : Decoder c.device}
    {k : EventKind} {a : Added k} (ha : a ∈ additions past (Mark.turns count).codes d k) :
    a.past = past ∧ a.epoch = (d.buffer k).epoch ∧ d.clock.endsEpoch (.ofNat count) ∧
      k.isWrap a.record ∧ k.time a.record = maxTime := by
  simp only [Mark.codes, additions] at ha
  split at ha
  · cases ha
  · rw [List.append_nil] at ha
    obtain ⟨r, hr, rfl⟩ := List.mem_map.1 ha
    simp only [asked] at hr
    split at hr
    · rename_i hends
      have hwrap := of_mem_only (P := fun k r => k.isWrap r ∧ k.time r = maxTime)
        (List.forall_mem_singleton.2 ⟨rfl, rfl⟩) hr
      exact ⟨rfl, rfl, hends, hwrap⟩
    · cases hr

/-- What a unit adds, except for markers, is stamped with the time that its mark leaves. -/
theorem mem_additions_leads {m : Mark} {codes body : List Code} (h : m.Leads codes body)
    {past : List (List UInt8)} {d : Decoder c.device} {k : EventKind} {a : Added k}
    (ha : a ∈ additions past codes d k) :
    a.past = past ∧ a.epoch = (d.buffer k).epoch ∧ (k.isMarker a.record = false →
      m.fillsUnit = false ∧ k.time a.record = (m.move d.collector.interval d.clock).current) := by
  cases m with
  | silent | tick =>
    obtain ⟨hpast, hepoch, -, htime⟩ := mem_additions_beside h rfl ha
    exact ⟨hpast, hepoch, fun _ => ⟨rfl, htime⟩⟩
  | turns count =>
    rw [h.codes_eq, h.alone rfl, List.append_nil] at ha
    obtain ⟨hpast, hepoch, -, hwrap, -⟩ := mem_additions_turns ha
    exact ⟨hpast, hepoch, fun h => by rw [EventKind.isMarker_eq, hwrap] at h; cases h⟩
  | reset =>
    rw [h.codes_eq, h.alone rfl] at ha
    cases ha

end Decoder

theorem Ledger.addedBy_reset {c : Camera} {b : Ledger c.device} {unit : List UInt8}
    (h : c.mark unit = .reset) (k : EventKind) : b.addedBy unit k = [] := by
  rw [addedBy, Camera.codes_of_fillsUnit h rfl]
  rfl

end EventCamera
