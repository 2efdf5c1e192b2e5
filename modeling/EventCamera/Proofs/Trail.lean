import EventCamera.Proofs.Sampling
import EventCamera.Proofs.Scratch

/-! # Trails

A run leaves a trail: the steps of the composites in its units, and what was forced between them. A
device that keeps a scratch record takes it along the trail, and every composite event that the run adds
stands on the trail. -/

namespace EventCamera

def Code.turns : Code → Bool
  | .wrap _ | .reset => true
  | .tick _ | .pixel .. | .group .. | .special .. | .composite .. => false

def CompositeKind.event : (kind : CompositeKind) → kind.eventKind.Record → CompositeEvent
  | .imu6, event => .imu6 event
  | .frame, event => .frame event

theorem CompositeEvent.eq_of_mem_only {made : CompositeEvent} {kind : CompositeKind}
    {event : kind.eventKind.Record} (h : event ∈ only made.kind [made.record] kind.eventKind) :
    made = kind.event event := by
  cases made with
  | imu6 sample =>
    cases kind with
    | imu6 =>
      change event ∈ only EventKind.imu6 [sample] EventKind.imu6 at h
      rw [only_self] at h
      exact congrArg imu6 (List.mem_singleton.1 h).symm
    | frame =>
      rw [only_of_ne _ (by simp [CompositeEvent.kind, CompositeKind.eventKind])] at h
      cases h
  | frame image =>
    cases kind with
    | imu6 =>
      rw [only_of_ne _ (by simp [CompositeEvent.kind, CompositeKind.eventKind])] at h
      cases h
    | frame =>
      change event ∈ only EventKind.frame [image] EventKind.frame at h
      rw [only_self] at h
      exact congrArg frame (List.mem_singleton.1 h).symm

/-- A device that keeps a scratch record. It leaves to the record the steps that the record takes, and
drops it when it has to. A wrap or a reset stands in its unit alone. -/
structure Scratch.KeptBy (S : Scratch) (dev : Device) where
  record : dev.State → S.Record
  ignoring_initial : S.ignoring (record dev.initial) = true
  record_classify : ∀ s unit, record (dev.classify s unit).state = record s
  compose_taken : ∀ s kind step time, S.takes kind = true →
    record (dev.compose s kind step time).state = (S.apply (record s) step time).1 ∧
      (dev.compose s kind step time).outcome = (S.apply (record s) step time).2
  compose_passed : ∀ s kind step time, S.takes kind = false →
    record (dev.compose s kind step time).state = record s ∧
      ∀ event, (dev.compose s kind step time).outcome = .complete event → S.makes event = false
  record_invalidate : ∀ s, record (dev.invalidate s) = S.drop (record s)
  alone : ∀ s unit, ∀ code ∈ (dev.classify s unit).codes, code.turns = true →
    (dev.classify s unit).codes = [code]

namespace Decoder

variable {dev : Device}

/-- What a code forces. -/
def forcedBy (d : Decoder dev) : Code → Option Forced
  | .wrap multiplier => if d.clock.endsEpoch multiplier then some .epochEnd else none
  | .reset => some .reset
  | .tick _ | .pixel .. | .group .. | .special .. | .composite .. => none

/-- What a code makes happen to the composites. -/
def happenings (d : Decoder dev) (done : Bool) : Code → List Happening
  | .composite kind step =>
    [.step kind step d.clock.current (dev.compose d.device kind step d.clock.current).outcome]
  | code => (d.forcedBy code).toList.map (.forced · done)

/-- What codes make happen, up to the first failure. -/
def trail (past : List (List UInt8)) (done : Bool) : List Code → Decoder dev → List Happened
  | [], _ => []
  | code :: rest, d =>
    (d.happenings done code).map (⟨·, past⟩) ++
      match (apply code d).result with
      | .error _ => []
      | .ok _ => trail past done rest (apply code d).decoder

end Decoder

namespace Ledger

variable {dev : Device}

/-- What the next unit makes happen. -/
def trailOf (b : Ledger dev) (unit : List UInt8) : List Happened :=
  let seen := dev.classify b.decoder.device unit
  Decoder.trail (b.units ++ [unit]) (b.decoder.make (.unit unit)).result.isOk seen.codes
    { b.decoder with device := seen.state }

/-- What a run makes happen. -/
def trail : Ledger dev → List Move → List Happened
  | _, [] => []
  | b, .unit unit :: rest => b.trailOf unit ++ (b.advance (.unit unit)).trail rest
  | b, .rest :: rest => (b.advance .rest).trail rest

end Ledger

/-! ## Devices -/

namespace Decoder

variable {dev : Device} {d : Decoder dev}

/-- Only the step of a composite concerns the device. -/
theorem device_apply {code : Code} (h : ∀ kind step, code ≠ .composite kind step) :
    (apply code d).decoder.device = d.device := by
  cases code with
  | tick | reset => rfl
  | wrap multiplier =>
    simp only [apply]
    split
    · exact device_push ..
    · rfl
  | pixel x y on => exact d.device_pushPixel x y on
  | group x base mask on => exact d.device_pushGroup x base mask on
  | special kind data => exact d.device_push ..
  | composite kind step => exact absurd rfl (h kind step)

theorem forced_apply {code : Code} {forced : Option Forced}
    (h : (apply code d).result = .ok forced) : forced = d.forcedBy code := by
  cases code with
  | tick | reset => exact (Except.ok.inj h).symm
  | wrap multiplier => exact forced_apply_wrap h
  | pixel x y on => exact (d.pushPixel_leavesClockAlone x y on).forced_eq forced h
  | group x base mask on => exact (d.pushGroup_leavesClockAlone x base mask on).forced_eq forced h
  | special kind data => exact (d.push_leavesClockAlone ..).forced_eq forced h
  | composite kind step => exact (d.applyComposite_leavesClockAlone kind step).forced_eq forced h

theorem forcedBy_of_not_turns {code : Code} (h : code.turns = false) : d.forcedBy code = none := by
  cases code with
  | wrap | reset => cases h
  | tick | pixel | group | special | composite => rfl

theorem forced_forEach {codes : List Code} (hcodes : ∀ code ∈ codes, code.turns = false)
    {forced : Option Forced} (h : (forEach apply codes d).result = .ok forced) : forced = none := by
  induction codes generalizing d with
  | nil => exact (Except.ok.inj h).symm
  | cons code codes ih =>
    obtain ⟨hcode, hrest⟩ := List.forall_mem_cons.1 hcodes
    cases hr : (apply code d).result with
    | error e =>
      simp only [forEach, Applied.andThen, hr] at h
      cases h
    | ok first =>
      have hfirst : first = none := (forced_apply hr).trans (forcedBy_of_not_turns hcode)
      rw [hfirst] at hr
      exact ih hrest ((andThen_of_none hr (forEach apply codes)).2.symm.trans h)

/-- A unit that forces something drops the composites of the device, unless it fails. -/
theorem device_make {unit : List UInt8} {forced : Option Forced}
    (h : ∀ f, (d.applyUnit unit).result = .ok f → f = forced) :
    (d.make (.unit unit)).decoder.device =
      if forced.isSome ∧ (d.make (.unit unit)).result.isOk then
        dev.invalidate (d.applyUnit unit).decoder.device
      else (d.applyUnit unit).decoder.device := by
  have hmade := d.make_made (.unit unit)
  by_cases hok : (d.make (.unit unit)).result.isOk
  · obtain ⟨f, hf⟩ := hmade.exists_forced hok
    obtain rfl := h f hf
    simp only [hok, and_true]
    exact device_settled hf hok
  · rw [if_neg fun hboth => hok hboth.2]
    cases hmade with
    | failed _ hd => rw [hd]; rfl
    | cut _ _ _ _ hdevice => exact hdevice
    | kept _ _ hr | sealed _ _ hr =>
      rw [hr] at hok
      exact absurd rfl hok

theorem device_make_rest (d : Decoder dev) : (d.make .rest).decoder.device = d.device := by
  simp only [make, settleRest]
  split
  · rfl
  · cases d.collector.takeOut none <;> rfl

/-! ## Trails of codes -/

theorem forall_mem_trail {P : Happened → Prop} {past : List (List UInt8)} {done : Bool}
    {codes : List Code}
    (h : ∀ code ∈ codes, ∀ d : Decoder dev, ∀ what ∈ d.happenings done code, P ⟨what, past⟩) :
    ∀ x ∈ trail past done codes d, P x := by
  induction codes generalizing d with
  | nil => exact List.forall_mem_nil _
  | cons code codes ih =>
    obtain ⟨hcode, hrest⟩ := List.forall_mem_cons.1 h
    intro x hx
    rw [trail] at hx
    rcases List.mem_append.1 hx with hx | hx
    · obtain ⟨what, hwhat, rfl⟩ := List.mem_map.1 hx
      exact hcode d what hwhat
    · cases hr : (apply code d).result with
      | error e =>
        rw [hr] at hx
        cases hx
      | ok forced =>
        rw [hr] at hx
        exact ih hrest x hx

theorem past_of_mem_trail {past : List (List UInt8)} {done : Bool} {codes : List Code}
    {x : Happened} (hx : x ∈ trail past done codes d) : x.past = past :=
  forall_mem_trail (P := fun x => x.past = past) (fun _ _ _ _ _ => rfl) x hx

theorem done_of_mem_trail {past : List (List UInt8)} {done done' : Bool} {codes : List Code}
    {x : Happened} (hx : x ∈ trail past done codes d) {cause : Forced}
    (hforced : x.what = .forced cause done') : done' = done := by
  refine forall_mem_trail (P := fun x => x.what = .forced cause done' → done' = done)
    (fun code _ d what hwhat heq => ?_) x hx hforced
  obtain rfl : what = .forced cause done' := heq
  cases code with
  | tick | wrap | reset | pixel | group | special =>
    obtain ⟨_, -, hsame⟩ := List.mem_map.1 hwhat
    exact (Happening.forced.inj hsame).2.symm
  | composite => cases List.mem_singleton.1 hwhat

/-- A unit of a single wrap or reset leaves at most what it forces on the trail. -/
theorem trail_turn (past : List (List UInt8)) (done : Bool) {code : Code} (h : code.turns = true) :
    trail past done [code] d = (d.forcedBy code).toList.map fun cause => ⟨.forced cause done, past⟩ := by
  have hnone : (match (apply code d).result with
      | .error _ => []
      | .ok _ => trail past done [] (apply code d).decoder) = [] := by
    cases (apply code d).result <;> rfl
  rw [trail, hnone, List.append_nil]
  cases code with
  | wrap | reset => exact List.map_map ..
  | tick | pixel | group | special | composite => cases h

theorem mem_asked_composite {code : Code} {kind : CompositeKind} {event : kind.eventKind.Record}
    (h : event ∈ d.asked code kind.eventKind) : ∃ sent step, code = .composite sent step ∧
      (dev.compose d.device sent step d.clock.current).outcome = .complete (kind.event event) := by
  have hother {k : EventKind} {records : List k.Record} (hne : k ≠ kind.eventKind) :
      event ∉ only k records kind.eventKind := by
    rw [only_of_ne _ hne]
    exact List.not_mem_nil
  cases code with
  | tick | reset => cases h
  | wrap multiplier =>
    simp only [asked] at h
    split at h
    · exact absurd h (hother (by cases kind <;> decide))
    · cases h
  | pixel | group | special => exact absurd h (hother (by cases kind <;> decide))
  | composite sent step =>
    refine ⟨sent, step, rfl, ?_⟩
    simp only [asked] at h
    cases houtcome : (dev.compose d.device sent step d.clock.current).outcome with
    | complete made =>
      rw [houtcome] at h
      rw [CompositeEvent.eq_of_mem_only h]
    | pending | ignored | mismatch =>
      rw [houtcome] at h
      cases h

end Decoder

/-! ## A record goes along the trail -/

namespace Scratch.KeptBy

variable {S : Scratch} {dev : Device} (K : S.KeptBy dev)

theorem follows_happenings {code : Code} (hcode : code.turns = false) (past : List (List UInt8))
    (done : Bool) (d : Decoder dev) :
    S.Follows (K.record d.device) ((d.happenings done code).map (⟨·, past⟩))
      (K.record (Decoder.apply code d).decoder.device) := by
  cases code with
  | wrap | reset => cases hcode
  | tick | pixel | group | special =>
    rw [Decoder.device_apply fun _ _ => Code.noConfusion]
    exact .nil _
  | composite kind step =>
    simp only [Decoder.apply, Decoder.device_applyComposite, Decoder.happenings, List.map_cons,
      List.map_nil]
    cases htakes : S.takes kind with
    | true =>
      obtain ⟨hrecord, houtcome⟩ := K.compose_taken d.device kind step d.clock.current htakes
      rw [hrecord, houtcome]
      exact .taken htakes (.nil _)
    | false =>
      obtain ⟨hrecord, hmakes⟩ := K.compose_passed d.device kind step d.clock.current htakes
      rw [hrecord]
      exact .passed htakes hmakes (.nil _)

/-- A record goes along the trail of codes without a wrap or a reset. -/
theorem follows_codes {codes : List Code} (hcodes : ∀ code ∈ codes, code.turns = false)
    (past : List (List UInt8)) (done : Bool) (d : Decoder dev) :
    S.Follows (K.record d.device) (Decoder.trail past done codes d)
      (K.record (Decoder.forEach Decoder.apply codes d).decoder.device) := by
  induction codes generalizing d with
  | nil => exact .nil _
  | cons code codes ih =>
    obtain ⟨hcode, hrest⟩ := List.forall_mem_cons.1 hcodes
    have hfirst := K.follows_happenings hcode past done d
    rw [Decoder.trail, Decoder.forEach, Decoder.Applied.andThen]
    cases (Decoder.apply code d).result with
    | error e =>
      rw [List.append_nil]
      exact hfirst
    | ok forced => exact hfirst.append (ih hrest _)

/-- A wrap or a reset drops the record if it forces a sealing that is done, and leaves it alone else. -/
theorem follows_turn (b : Ledger dev) {unit : List UInt8} {code : Code}
    (hcodes : (dev.classify b.decoder.device unit).codes = [code]) (hturns : code.turns = true) :
    S.Follows (K.record b.decoder.device) (b.trailOf unit)
      (K.record (b.decoder.make (.unit unit)).decoder.device) := by
  have happly : (b.decoder.applyUnit unit).decoder.device =
      (dev.classify b.decoder.device unit).state := by
    rw [Decoder.applyUnit, hcodes, (Decoder.forEach_singleton ..).1, Decoder.device_apply]
    rintro kind step rfl
    cases hturns
  let d : Decoder dev := { b.decoder with device := (dev.classify b.decoder.device unit).state }
  have hforced (f : Option Forced) (hf : (b.decoder.applyUnit unit).result = .ok f) :
      f = d.forcedBy code := by
    rw [Decoder.applyUnit, hcodes, (Decoder.forEach_singleton ..).2] at hf
    exact Decoder.forced_apply hf
  have htrail : b.trailOf unit = (d.forcedBy code).toList.map fun cause =>
      ⟨.forced cause (b.decoder.make (.unit unit)).result.isOk, b.units ++ [unit]⟩ := by
    rw [Ledger.trailOf, hcodes]
    exact Decoder.trail_turn _ _ hturns
  rw [Decoder.device_make hforced, happly, htrail]
  cases d.forcedBy code with
  | none =>
    simp only [Option.isSome_none, Bool.false_eq_true, false_and, if_false, K.record_classify]
    exact .nil _
  | some cause =>
    simp only [Option.isSome_some, true_and]
    cases (b.decoder.make (.unit unit)).result.isOk with
    | true =>
      rw [if_pos rfl, K.record_invalidate, K.record_classify]
      exact .dropped (.nil _)
    | false =>
      rw [if_neg Bool.false_ne_true, K.record_classify]
      exact .missed (.nil _)

include K in
theorem codes_cases (s : dev.State) (unit : List UInt8) :
    (∃ code, (dev.classify s unit).codes = [code] ∧ code.turns = true) ∨
      ∀ code ∈ (dev.classify s unit).codes, code.turns = false := by
  by_cases h : ∃ code ∈ (dev.classify s unit).codes, code.turns = true
  · obtain ⟨code, hmem, hturns⟩ := h
    exact .inl ⟨code, K.alone s unit code hmem hturns, hturns⟩
  · refine .inr fun code hmem => ?_
    rw [← Bool.not_eq_true]
    exact fun hturns => h ⟨code, hmem, hturns⟩

theorem follows_trailOf (b : Ledger dev) (unit : List UInt8) :
    S.Follows (K.record b.decoder.device) (b.trailOf unit)
      (K.record (b.advance (.unit unit)).decoder.device) := by
  rw [b.decoder_advance]
  rcases K.codes_cases b.decoder.device unit with ⟨code, hcodes, hturns⟩ | hleaves
  · exact K.follows_turn b hcodes hturns
  · rw [Decoder.device_make (fun f hf => Decoder.forced_forEach hleaves hf), if_neg (by simp),
      ← K.record_classify b.decoder.device unit]
    exact K.follows_codes hleaves (b.units ++ [unit]) (b.decoder.make (.unit unit)).result.isOk
      { b.decoder with device := (dev.classify b.decoder.device unit).state }

/-- A record goes along the trail of a run. -/
theorem follows_trail (b : Ledger dev) (moves : List Move) :
    S.Follows (K.record b.decoder.device) (b.trail moves)
      (K.record (b.run moves).decoder.device) := by
  induction moves generalizing b with
  | nil => exact .nil _
  | cons m moves ih =>
    cases m with
    | unit unit => exact (K.follows_trailOf b unit).append (ih _)
    | rest =>
      have hdevice : (b.advance .rest).decoder.device = b.decoder.device :=
        b.decoder.device_make_rest
      have hlater := ih (b.advance .rest)
      rwa [hdevice] at hlater

end Scratch.KeptBy

/-! ## The order of a trail -/

namespace Ledger

variable {dev : Device} {b : Ledger dev}

theorem past_of_mem_trailOf {unit : List UInt8} {h : Happened} (hh : h ∈ b.trailOf unit) :
    h.past = b.units ++ [unit] :=
  Decoder.past_of_mem_trail hh

theorem past_of_mem_trail {moves : List Move} {h : Happened} (hh : h ∈ b.trail moves) :
    b.units.length < h.past.length ∧ h.past <+: (b.run moves).units := by
  induction moves generalizing b with
  | nil => cases hh
  | cons m moves ih =>
    cases m with
    | rest => exact ih hh
    | unit unit =>
      have hunits : (b.advance (.unit unit)).units = b.units ++ [unit] := rfl
      rcases List.mem_append.1 hh with hh | hh
      · rw [past_of_mem_trailOf hh, List.length_append, ← hunits]
        exact ⟨Nat.lt_succ_self _, units_prefix_run _ moves⟩
      · obtain ⟨hlt, hprefix⟩ := ih hh
        rw [hunits, List.length_append] at hlt
        exact ⟨Nat.lt_of_succ_lt hlt, hprefix⟩

/-- Where no step fails, whatever is forced is done. -/
theorem Succeeds.done {moves : List Move} (h : b.Succeeds moves) {x : Happened}
    (hx : x ∈ b.trail moves) {cause : Forced} {done : Bool} (hforced : x.what = .forced cause done) :
    done = true := by
  induction moves generalizing b with
  | nil => cases hx
  | cons m moves ih =>
    cases m with
    | rest => exact ih h.2 hx
    | unit unit =>
      rcases List.mem_append.1 hx with hx | hx
      · exact (Decoder.done_of_mem_trail hx hforced).trans h.1
      · exact ih h.2 hx

end Ledger

namespace Scratch.KeptBy

variable {S : Scratch} {dev : Device} (K : S.KeptBy dev)

end Scratch.KeptBy

end EventCamera
