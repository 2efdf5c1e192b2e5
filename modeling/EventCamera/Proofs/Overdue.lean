import EventCamera.Proofs.Capacity

/-! # Deadlines that have passed

Once the deadline has passed, a unit seals all events that wait, unless one of its codes fails before.
With a DVXplorer none can, since a tick is a unit of its own. With a DVS128 the tick of a pixel comes with
the pixel: when the buffer is exhausted no pixel seals anything, however late it is, and no later pixel
does. -/

namespace EventCamera

theorem Clock.isDue_arm_tick {c : Clock} {deadline : Int} {ticks : UInt32} (interval : Int)
    (hdeadline : c.deadline = some deadline) (hlate : deadline < (c.tick ticks).full) :
    ((c.tick ticks).arm interval).isDue := by
  have hstays : (c.tick ticks).deadline = some deadline := hdeadline
  rw [arm_of_some hstays]
  exact (isDue_of_some hstays).2 hlate

namespace Decoder

/-- All events that wait went into one container, in the order in which they were added. -/
def SealedIn {dev : Device} (d : Decoder dev) (containers : List Sealed) : Prop :=
  ∃ data, .data data ∈ containers ∧ ∀ k, (d.buffer k).stamped <+: data.stamped k

theorem exists_takenOut {dev : Device} {d : Decoder dev} (h : d.collector.Replaceable) {unit : List UInt8}
    (hok : (d.applyUnit unit).result.isOk) (hdue : (d.applyUnit unit).decoder.clock.isDue) :
    ∃ forced sealing, (d.make (.unit unit)).result = .ok (some sealing) ∧
      (d.applyUnit unit).decoder.collector.TakenOut forced sealing
        (d.make (.unit unit)).decoder.collector := by
  cases (d.make_made (.unit unit)).completed (h.isOk_make_iff.2 hok) with
  | kept _ _ hr =>
    have hwaits : (d.applyUnit unit).decoder.clock.isDue = false := (atRest_of_settled hr).not_isDue
    rw [hdue] at hwaits
    cases hwaits
  | sealed _ ht hr => exact ⟨_, _, hr, ht⟩

end Decoder

namespace Ledger

/-- A unit whose codes do not fail seals all events that wait, if the deadline has passed. -/
theorem sealedIn_of_isDue {dev : Device} {b : Ledger dev} (h : b.decoder.collector.Replaceable)
    (hpending : b.decoder.pending ≠ 0) {unit : List UInt8}
    (hok : (b.decoder.applyUnit unit).result.isOk)
    (hdue : (b.decoder.applyUnit unit).decoder.clock.isDue) :
    b.decoder.SealedIn (b.decoder.make (.unit unit)).handedOn ∧
      (b.decoder.make (.unit unit)).decoder.Idle := by
  obtain ⟨forced, sealing, hresult, htaken⟩ := Decoder.exists_takenOut h hok hdue
  have hwhole (k : EventKind) : (b.decoder.buffer k).stamped <+: sealing.data.stamped k := by
    rw [htaken.stamped_data]
    exact (b.stamped_applyUnit unit k).symm ▸ List.prefix_append ..
  -- an empty container is not handed on
  have hfilled : sealing.data.isEmpty = false := by
    rw [← Bool.not_eq_true]
    intro hempty
    refine hpending (Decoder.pending_eq_zero_iff.2 fun k => Buffer.isEmpty_iff.2 ?_)
    have hprefix := hwhole k
    rwa [Container.stamped_of_isEmpty hempty, List.prefix_nil] at hprefix
  refine ⟨⟨sealing.data, ?_, hwhole⟩, htaken.fresh_isEmpty⟩
  simp only [Settled.handedOn_of_ok hresult, Option.elim_some, Sealing.handedOn, hfilled]
  exact List.mem_append_left _ (List.mem_singleton_self _)

end Ledger

/-! ## Ticks -/

section Late

variable {c : Camera} {b : Ledger c.device} {unit : List UInt8} {ticks : Nat} {deadline : Int}

/-- A tick behind the deadline makes it due, whether its unit fails or not. -/
theorem Ledger.isDue_applyUnit (hmark : c.mark unit = .tick ticks)
    (hdeadline : b.decoder.clock.deadline = some deadline)
    (hlate : deadline < (b.decoder.clock.tick (.ofNat ticks)).full) :
    (b.decoder.applyUnit unit).decoder.clock.isDue := by
  obtain ⟨body, hleads⟩ := c.leads b.decoder.device unit
  rw [hmark] at hleads
  have hclock : (b.decoder.applyUnit unit).decoder.clock =
      (b.decoder.clock.tick (.ofNat ticks)).arm b.decoder.collector.interval :=
    Decoder.clock_forEach_leads hleads _
  rw [hclock]
  exact Clock.isDue_arm_tick _ hdeadline hlate

/-- A tick of a DVXplorer behind the deadline seals all events that wait. -/
theorem Ledger.sealedIn_of_tick_dvXplorer {g : Geometry}
    {b : Ledger (Camera.dvXplorer g).device} (h : b.decoder.collector.Replaceable)
    (hpending : b.decoder.pending ≠ 0)
    (hmark : (Camera.dvXplorer g).mark unit = .tick ticks)
    (hdeadline : b.decoder.clock.deadline = some deadline)
    (hlate : deadline < (b.decoder.clock.tick (.ofNat ticks)).full) :
    b.decoder.SealedIn (b.decoder.make (.unit unit)).handedOn ∧
      (b.decoder.make (.unit unit)).decoder.Idle := by
  refine sealedIn_of_isDue h hpending ?_ (isDue_applyUnit hmark hdeadline hlate)
  have hmark : Wire.DvXplorer.mark unit = .tick ticks := hmark
  have hspoken : Wire.DvXplorer.mark unit ≠ .silent := by
    rw [hmark]
    exact nofun
  have hcodes := Wire.DvXplorer.codes_of_mark g b.decoder.device hspoken
  rw [hmark] at hcodes
  have hresult : (b.decoder.applyUnit unit).result = _ :=
    congrArg (fun codes => (Decoder.forEach Decoder.apply codes _).result) hcodes
  rw [hresult]
  rfl

end Late

/-! ## Pixels of a DVS128 -/

namespace Wire.Dvs128

/-- The ticks of a unit that tells of a pixel: the flags of its time word and the top bit of its address
word are clear. -/
def pixelTicks? : List UInt8 → Option Nat
  | [addressLow, addressHigh, low, high] =>
    if word low high < 2 ^ 14 ∧ word addressLow addressHigh < 2 ^ 15 then some (word low high)
    else none
  | _ => none

theorem exists_pixel (address : Nat) :
    ∃ x y on, pixel address = .pixel x y on ∧ device.geometry.contains x y := by
  refine ⟨_, _, _, rfl, ?_⟩
  have hlt (n : Nat) : UInt16.ofNat (arraySize - 1 - n) < UInt16.ofNat arraySize := by
    have hsmall : arraySize - 1 - n < 128 := by
      unfold arraySize
      omega
    rw [UInt16.lt_iff_toNat_lt, UInt16.toNat_ofNat', Nat.mod_eq_of_lt (by omega)]
    exact hsmall
  simp only [Geometry.contains, device, hlt, decide_true, Bool.and_true]

theorem codes_of_clear {addressLow addressHigh low high : UInt8}
    (hsync : word addressLow addressHigh < 2 ^ 15) (hflags : word low high < 2 ^ 14) :
    codes [addressLow, addressHigh, low, high] =
      [.tick (.ofNat (word low high)), pixel (word addressLow addressHigh)] := by
  have hwrap : ¬ 2 ^ 15 ≤ word low high := by omega
  simp only [codes, flag_iff (word_lt low high), if_neg hwrap, flag_iff (Nat.lt_of_not_le hwrap),
    if_neg (Nat.not_le_of_lt hflags), flag_iff (word_lt addressLow addressHigh),
    if_neg (Nat.not_le_of_lt hsync)]

/-- What a unit that tells of a pixel consists of. -/
theorem codes_of_pixelTicks {unit : List UInt8} {ticks : Nat} (h : pixelTicks? unit = some ticks) :
    unit.length = 4 ∧ mark unit = .tick ticks ∧
      ∃ address, codes unit = [.tick (.ofNat ticks), pixel address] := by
  unfold pixelTicks? at h
  split at h
  · rename_i addressLow addressHigh low high
    split at h
    · rename_i hflags
      cases h
      have hwrap : ¬ 2 ^ 15 ≤ word low high := by omega
      refine ⟨rfl, ?_, word addressLow addressHigh, codes_of_clear hflags.2 hflags.1⟩
      simp only [mark, if_neg hwrap, if_neg (Nat.not_le_of_lt hflags.1)]
    · cases h
  · cases h

end Wire.Dvs128

open Wire.Dvs128 (pixelTicks?)

namespace Decoder

variable {d : Decoder Wire.Dvs128.device} {unit : List UInt8} {ticks limit : Nat}

theorem exists_push_of_pixel (h : pixelTicks? unit = some ticks) (d : Decoder Wire.Dvs128.device) :
    ∃ (d' : Decoder Wire.Dvs128.device) (event : PolarityEvent),
      (∀ k, d'.buffer k = d.buffer k) ∧ d'.collector.memory = d.collector.memory ∧
      (d.applyUnit unit).decoder = (d'.push .polarity event [] none).decoder ∧
      (d.applyUnit unit).result = (d'.push .polarity event [] none).result := by
  obtain ⟨-, -, address, hcodes⟩ := Wire.Dvs128.codes_of_pixelTicks h
  obtain ⟨x, y, on, hpixel, hin⟩ := Wire.Dvs128.exists_pixel address
  have happlied : d.applyUnit unit = forEach apply [.tick (.ofNat ticks), .pixel x y on] d :=
    congrArg (forEach apply · d) (hcodes.trans (hpixel ▸ rfl))
  obtain ⟨hdecoder, hresult⟩ := andThen_of_none (a := apply (.tick (.ofNat ticks)) d) rfl
    (forEach apply [.pixel x y on])
  obtain ⟨hdecoder', hresult'⟩ := forEach_singleton apply (.pixel x y on)
    (apply (.tick (.ofNat ticks)) d).decoder
  have hpush (d : Decoder Wire.Dvs128.device) : apply (.pixel x y on) d =
      d.push .polarity ⟨x, y, on, d.clock.current⟩ [] none := if_pos hin
  rw [hpush] at hdecoder' hresult'
  rw [happlied]
  refine ⟨_, _, ?_, ?_, hdecoder.trans hdecoder', hresult.trans hresult'⟩
  · exact fun _ => rfl
  · rfl

theorem push_of_error {dev : Device} {d : Decoder dev} {k : EventKind} {e : GrowthError}
    (h : d.collector.capacityFor k 1 = .error e) (event : k.Record) (notices : List Notice)
    (forced : Option Forced) :
    d.push k event notices forced = { decoder := d, notices, result := .error e } := by
  simp only [push, h]

/-- The codes of a pixel fail exactly if its buffer is exhausted. -/
theorem Supplied.isOk_applyUnit_pixel (h : d.Supplied limit) (hpixel : pixelTicks? unit = some ticks) :
    (d.applyUnit unit).result.isOk ↔ ¬ d.Exhausted .polarity := by
  obtain ⟨d', event, hbuffers, hmemory, -, hresult⟩ := exists_push_of_pixel hpixel d
  rw [hresult, isOk_push, capacityFor_congr (hbuffers .polarity) hmemory]
  exact (h .polarity).1.isOk_capacityFor_iff

/-- A pixel that finds its buffer exhausted fails, and leaves the buffers alone. -/
theorem Supplied.make_of_exhausted (h : d.Supplied limit) (hpixel : pixelTicks? unit = some ticks)
    (hfull : d.Exhausted .polarity) :
    (d.make (.unit unit)).result = .error ⟨.polarity, (d.buffer .polarity).capacity,
        2 * (d.buffer .polarity).capacity⟩ ∧ (d.make (.unit unit)).handedOn = [] ∧
      ∀ k, (d.make (.unit unit)).decoder.buffer k = d.buffer k := by
  obtain ⟨d', event, hbuffers, hmemory, hdecoder, hresult⟩ := exists_push_of_pixel hpixel d
  have hroom := (h .polarity).1.capacityFor_of_exhausted hfull
  rw [push_of_error ((capacityFor_congr (hbuffers .polarity) hmemory 1).trans hroom)]
    at hdecoder hresult
  have hmade : d.make (.unit unit) = _ := settled_of_error hresult
  rw [hmade, hdecoder]
  exact ⟨rfl, rfl, hbuffers⟩

end Decoder

def PixelsOnly (calls : List Call) : Prop :=
  ∀ call ∈ calls, call ≠ .flush ∧ ∀ u ∈ call.units Wire.Dvs128.unitWidth, (pixelTicks? u).isSome

namespace Ledger

variable {b b' : Ledger Wire.Dvs128.device} {limit : Nat}

/-- As long as the buffer of the pixels is exhausted and nothing but pixels come, nothing is sealed and
the buffers stay. -/
theorem run_of_exhausted (h : b.decoder.Supplied limit)
    (hfull : b.decoder.Exhausted .polarity) {units : List (List UInt8)}
    (hpixels : ∀ u ∈ units, (pixelTicks? u).isSome) :
    (b.run (units.map .unit)).sealed = b.sealed ∧
      ∀ k, (b.run (units.map .unit)).decoder.buffer k = b.decoder.buffer k := by
  induction units generalizing b with
  | nil => exact ⟨rfl, fun _ => rfl⟩
  | cons unit units ih =>
    obtain ⟨hfirst, hrest⟩ := List.forall_mem_cons.1 hpixels
    obtain ⟨ticks, hticks⟩ := Option.isSome_iff_exists.1 hfirst
    obtain ⟨-, hnone, hbuffers⟩ := h.make_of_exhausted hticks hfull
    have hsame (k : EventKind) : (b.advance (.unit unit)).decoder.buffer k = b.decoder.buffer k := by
      rw [decoder_advance, hbuffers]
    have hsealed : (b.advance (.unit unit)).sealed = b.sealed := by
      rw [sealed_advance, hnone, List.append_nil]
    have hmemory : (b.advance (.unit unit)).decoder.collector.memory = b.decoder.collector.memory := by
      rw [decoder_advance, Decoder.memory_make]
    obtain ⟨hlater, hstays⟩ := ih (b := b.advance (.unit unit)) (fun k => (hsame k).symm ▸ h k)
      (hfull.congr (hsame .polarity) hmemory) hrest
    exact ⟨hlater.trans hsealed, fun k => (hstays k).trans (hsame k)⟩

theorem session_of_exhausted {calls : List Call} {steps : List Step}
    {results : List (Except DecodeError Unit)}
    (h : Trace (session call calls b) steps (b', results)) (hcalls : PixelsOnly calls)
    (hsupplied : b.decoder.Supplied limit) (hfull : b.decoder.Exhausted .polarity) :
    b'.sealed = b.sealed ∧ ∀ k, b'.decoder.buffer k = b.decoder.buffer k := by
  induction calls generalizing b steps results with
  | nil =>
    cases h
    exact ⟨rfl, fun _ => rfl⟩
  | cons c calls ih =>
    obtain ⟨⟨b₁, result⟩, before, _, hcall, hrest, rfl⟩ := h.of_bind
    obtain ⟨⟨b₂, later⟩, after, _, hsession, hend, rfl⟩ := hrest.of_bind
    cases hend
    obtain ⟨⟨hread, hpixels⟩, hrest⟩ := List.forall_mem_cons.1 hcalls
    cases c with
    | flush => exact absurd rfl hread
    | decode bytes =>
      obtain ⟨decoded, hfirst, -, hcourse⟩ := exists_decoded hcall
      have hdecoded : ∀ u ∈ decoded, (pixelTicks? u).isSome := fun u hu =>
        hpixels u (hfirst.subset hu)
      obtain ⟨hsealed, hsame⟩ := run_of_exhausted hsupplied hfull hdecoded
      have hend (k : EventKind) : b₁.decoder.buffer k = b.decoder.buffer k := by
        rw [hcourse.end_eq]
        exact hsame k
      have hmemory : b₁.decoder.collector.memory = b.decoder.collector.memory := by
        rw [hcourse.end_eq]
        exact memory_run b _
      obtain ⟨hlater, hstays⟩ := ih hsession hrest (fun k => (hend k).symm ▸ hsupplied k)
        (hfull.congr (hend .polarity) hmemory)
      refine ⟨hlater.trans ?_, fun k => (hstays k).trans (hend k)⟩
      rw [hcourse.end_eq]
      exact hsealed

end Ledger

/-! ## Sessions -/

/-- As long as nothing but pixels come, nothing is sealed and the buffers stay. -/
def Decoder.Blocked (d : Decoder Wire.Dvs128.device) : Prop :=
  ∀ {calls : List Call} {x x' : Exchange} {log : List Occurrence} {d' : Decoder Wire.Dvs128.device}
    {results : List (Except DecodeError Unit)}, PixelsOnly calls →
      Execution (session Decoder.call calls d) x log (d', results) x' →
      handovers (stepsOf log) = [] ∧ ∀ k, d'.buffer k = d.buffer k

theorem Decoder.blocked_of_exhausted {d : Decoder Wire.Dvs128.device} {limit : Nat}
    (h : d.Supplied limit) (hfull : d.Exhausted .polarity) : d.Blocked := by
  intro calls x x' log d' results hcalls hsession
  obtain ⟨b, hb, rfl⟩ := Ledger.exists_execution { decoder := d } hsession
  obtain ⟨hsealed, hsame⟩ := Ledger.session_of_exhausted hb.trace hcalls h hfull
  obtain ⟨moves, hcourse, -⟩ := Ledger.trace_session hb.trace
  rw [hcourse.sealed_eq] at hsealed
  exact ⟨List.map_eq_nil_iff.1 (List.append_right_eq_self.1 hsealed), hsame⟩

/-- What a pixel behind the deadline comes to. It seals all events that wait if its buffer is not
exhausted. Otherwise it fails and seals nothing, and nothing is sealed either as long as only pixels come
after it. -/
structure Decoder.LatePixel (d d' : Decoder Wire.Dvs128.device) (hs : List Handover)
    (result : Except DecodeError Unit) : Prop where
  sealedIn_iff : d.SealedIn (hs.map Handover.sealed) ↔ ¬ d.Exhausted .polarity
  of_room : ¬ d.Exhausted .polarity → result = .ok () ∧ d'.Idle
  of_exhausted : d.Exhausted .polarity →
    result = .error (.allocation ⟨.polarity, (d.buffer .polarity).capacity,
      2 * (d.buffer .polarity).capacity⟩) ∧
    hs = [] ∧ (∀ k, d'.buffer k = d.buffer k) ∧ d'.Blocked

section LatePixel

variable {b b' : Ledger Wire.Dvs128.device} {limit : Nat} {unit : List UInt8} {ticks : Nat}
  {deadline : Int} {hs : List Handover}

/-- A pixel that finds its buffer exhausted, late or not. -/
theorem Ledger.latePixel_of_exhausted (h : b.decoder.Supplied limit)
    (hpixel : pixelTicks? unit = some ticks) (hfull : b.decoder.Exhausted .polarity)
    (hcourse : b.Course [.unit unit] hs b') :
    b.decoder.LatePixel b'.decoder hs
      (((b.decoder.make (.unit unit)).result.map fun _ => ()).mapError .allocation) := by
  obtain ⟨hresult, hnothing, hsame⟩ := h.make_of_exhausted hpixel hfull
  have hnone : hs = [] := List.map_eq_nil_iff.1 (hcourse.handedOn_eq ▸ hnothing)
  have hstays (k : EventKind) : b'.decoder.buffer k = b.decoder.buffer k := by
    rw [hcourse.end_eq]
    exact hsame k
  have hmemory : b'.decoder.collector.memory = b.decoder.collector.memory := by
    rw [hcourse.end_eq]
    exact memory_run b _
  have hblocked : b'.decoder.Blocked :=
    Decoder.blocked_of_exhausted (fun k => (hstays k).symm ▸ h k)
      (hfull.congr (hstays .polarity) hmemory)
  refine ⟨⟨fun hsealed => ?_, fun hroom => absurd hfull hroom⟩, fun hroom => absurd hfull hroom,
    fun _ => ⟨?_, hnone, hstays, hblocked⟩⟩
  · obtain ⟨_, hmem, -⟩ := hsealed
    rw [hnone] at hmem
    cases hmem
  · rw [hresult]
    rfl

/-- A pixel behind the deadline that finds room. -/
theorem Ledger.latePixel_of_room (h : b.decoder.Supplied limit)
    (hreplaceable : b.decoder.collector.Replaceable) (hpixel : pixelTicks? unit = some ticks)
    (hpending : b.decoder.pending ≠ 0)
    (hdeadline : b.decoder.clock.deadline = some deadline)
    (hlate : deadline < (b.decoder.clock.tick (.ofNat ticks)).full)
    (hroom : ¬ b.decoder.Exhausted .polarity) (hcourse : b.Course [.unit unit] hs b') :
    b.decoder.LatePixel b'.decoder hs
      (((b.decoder.make (.unit unit)).result.map fun _ => ()).mapError .allocation) := by
  have hok := (h.isOk_applyUnit_pixel hpixel).2 hroom
  have hmark : Camera.mark .dvs128 unit = .tick ticks :=
    (Wire.Dvs128.codes_of_pixelTicks hpixel).2.1
  have hdue := isDue_applyUnit (c := .dvs128) hmark hdeadline hlate
  obtain ⟨hsealed, hidle⟩ := sealedIn_of_isDue hreplaceable hpending hok hdue
  obtain ⟨forced, sealing, hresult, -⟩ := Decoder.exists_takenOut hreplaceable hok hdue
  refine ⟨⟨fun _ => hroom, fun _ => hcourse.handedOn_eq ▸ hsealed⟩, fun _ => ⟨?_, fun k => ?_⟩,
    fun hfull => absurd hfull hroom⟩
  · rw [hresult]
    rfl
  · rw [hcourse.end_eq]
    exact hidle k

end LatePixel

/-- Whatever calls came before, a pixel behind the deadline seals all events that wait if and only if its
buffer is not exhausted, as long as there is memory for new buffers. -/
theorem session_latePixel {settings : Settings} (hmemory : settings.Spares)
    {d d₁ d₂ : Decoder Wire.Dvs128.device} {calls : List Call} {unit : List UInt8} {ticks : Nat}
    {deadline : Int} {x₁ x₁' x₂ x₂' : Exchange} {log₁ log₂ : List Occurrence}
    {results : List (Except DecodeError Unit)}
    {result : Except DecodeError Unit} (hstart : Decoder.start Wire.Dvs128.device settings = .ok d)
    (hsession : Execution (session Decoder.call calls d) x₁ log₁ (d₁, results) x₁')
    (hpixel : pixelTicks? unit = some ticks) (hpending : d₁.pending ≠ 0)
    (hdeadline : d₁.clock.deadline = some deadline)
    (hlate : deadline < (d₁.clock.tick (.ofNat ticks)).full)
    (hcall : Execution (d₁.decode unit) x₂ log₂ (d₂, result) x₂')
    (hwanted : ⟨.isRunning, true⟩ ∈ stepsOf log₂) :
    d₁.LatePixel d₂ (handovers (stepsOf log₂)) result := by
  obtain ⟨b₁, hb₁, rfl⟩ := Ledger.exists_execution { decoder := d } hsession
  obtain ⟨b₂, hb₂, rfl⟩ := Ledger.exists_trace b₁ (c := .decode unit) hcall.trace
  have hsupplied := Ledger.supplied_of_session hstart hb₁.trace
  have hlength := (Wire.Dvs128.codes_of_pixelTicks hpixel).1
  rcases Ledger.trace_decode_unit hlength hb₂ with ⟨hsteps, -, -⟩ | ⟨-, hcourse, rfl⟩
  · rw [hsteps] at hwanted
    cases List.mem_singleton.1 hwanted
  · by_cases hfull : b₁.decoder.Exhausted .polarity
    · exact Ledger.latePixel_of_exhausted hsupplied hpixel hfull hcourse
    · exact Ledger.latePixel_of_room hsupplied
        (Ledger.replaceable_of_session hstart hmemory hb₁.trace) hpixel hpending hdeadline hlate hfull
        hcourse

/-- Whether a new decoder that makes calls and then reads, alone, comes to its end with the decoder
before the read, the steps of the read, and its result as they are asked for. -/
def leavesAfter (dev : Device) (settings : Settings) (calls : List Call) (bytes : List UInt8)
    (x : Exchange) (test : Decoder dev → List Step → Except DecodeError Unit → Bool) : Bool :=
  match Decoder.start dev settings with
  | .error _ => false
  | .ok d =>
    match (session Decoder.call calls d).alone x with
    | (_, none) => false
    | (_, some ((d₁, _), x₁)) =>
      match (d₁.decode bytes).alone x₁ with
      | (_, none) => false
      | (steps, some ((_, result), _)) => test d₁ steps result

theorem exists_of_leavesAfter {dev : Device} {settings : Settings} {calls : List Call}
    {bytes : List UInt8} {x : Exchange}
    {test : Decoder dev → List Step → Except DecodeError Unit → Bool}
    (h : leavesAfter dev settings calls bytes x test) :
    ∃ d d₁ d₂ results log₁ steps result x₁ x₂, Decoder.start dev settings = .ok d ∧
      Execution (session Decoder.call calls d) x log₁ (d₁, results) x₁ ∧
      Execution (d₁.decode bytes) x₁ (steps.map .acted) (d₂, result) x₂ ∧
      test d₁ steps result := by
  unfold leavesAfter at h
  split at h
  · cases h
  · rename_i d hd
    split at h
    · cases h
    · rename_i steps₁ d₁ results x₁ h₁
      split at h
      · cases h
      · rename_i steps d₂ result x₂ h₂
        exact ⟨d, d₁, d₂, results, steps₁.map .acted, steps, result, x₁, x₂, hd,
          Producer.execution_of_alone h₁, Producer.execution_of_alone h₂, h⟩

theorem Decoder.wanted_of_steady {dev : Device} {d d' : Decoder dev} {bytes : List UInt8}
    {steps : List Step} {result : Except DecodeError Unit}
    (h : Trace (d.decode bytes) steps (d', result)) (hsteady : Steady steps) :
    ⟨.isRunning, true⟩ ∈ steps := by
  rcases trace_overRead h with ⟨rfl, -, -⟩ | ⟨_, _, hwanted, -⟩
  · cases hsteady _ List.mem_cons_self
  · exact hwanted

/-- Settings with a deadline after ten microseconds and no limit on the number of events to seal. -/
def hastySettings (capacityLimit : Nat) : Settings :=
  { maxEvents := 0, maxInterval := 10, capacityLimit }

open Wire.Dvs128 in
def firstPixel : List Call :=
  [.decode (encode (address 127 127 true) 1 0)]

open Wire.Dvs128 in
def secondPixel : List UInt8 :=
  encode (address 126 125 true) 100 0

theorem session_latePixel_room :
    ∃ (d d₁ d₂ : Decoder Wire.Dvs128.device) (results : List (Except DecodeError Unit))
      (log₁ log₂ : List Occurrence) (result : Except DecodeError Unit) (x₁ x₂ : Exchange),
      Decoder.start Wire.Dvs128.device (hastySettings 2) = .ok d ∧
      Execution (session Decoder.call firstPixel d) (.start 3) log₁ (d₁, results) x₁ ∧
      d₁.pending ≠ 0 ∧ d₁.clock.deadline = some 10 ∧ 10 < (d₁.clock.tick 100).full ∧
      Execution (d₁.decode secondPixel) x₁ log₂ (d₂, result) x₂ ∧
      ⟨.isRunning, true⟩ ∈ stepsOf log₂ ∧ ¬ d₁.Exhausted .polarity ∧
      d₁.LatePixel d₂ (handovers (stepsOf log₂)) result := by
  have hrun : leavesAfter Wire.Dvs128.device (hastySettings 2) firstPixel secondPixel (.start 3)
      fun d₁ steps _ => steps.all Step.goesOn && decide (d₁.pending ≠ 0 ∧
        d₁.clock.deadline = some 10 ∧ 10 < (d₁.clock.tick 100).full ∧
        ¬ d₁.Exhausted .polarity) := by decide +kernel
  obtain ⟨d, d₁, d₂, results, log₁, steps, result, x₁, x₂, hd, h₁, h₂, htest⟩ :=
    exists_of_leavesAfter hrun
  obtain ⟨hsteady, hstate⟩ := Bool.and_eq_true_iff.1 htest
  obtain ⟨hpending, hdeadline, hlate, hroom⟩ := of_decide_eq_true hstate
  have hwanted := Decoder.wanted_of_steady h₂.trace
    (by rw [stepsOf_acted]; exact List.all_eq_true.1 hsteady)
  exact ⟨d, d₁, d₂, results, log₁, steps.map .acted, result, x₁, x₂, hd, h₁, hpending, hdeadline,
    hlate, h₂, hwanted, hroom,
    session_latePixel (by decide) hd h₁ (by decide +kernel) hpending hdeadline hlate h₂ hwanted⟩

/-- A pixel behind the deadline that finds its buffer full: it fails, and what waits is not sealed. -/
theorem not_sealedIn_latePixel :
    ∃ (d d₁ d₂ : Decoder Wire.Dvs128.device) (results : List (Except DecodeError Unit))
      (log₁ log₂ : List Occurrence) (e : DecodeError) (x₁ x₂ : Exchange),
      (hastySettings 1).validate = .ok () ∧
      Decoder.start Wire.Dvs128.device (hastySettings 1) = .ok d ∧
      Execution (session Decoder.call firstPixel d) (.start 3) log₁ (d₁, results) x₁ ∧
      pixelTicks? secondPixel = some 100 ∧
      d₁.pending ≠ 0 ∧ d₁.clock.deadline = some 10 ∧ 10 < (d₁.clock.tick 100).full ∧
      Execution (d₁.decode secondPixel) x₁ log₂ (d₂, .error e) x₂ ∧
      ¬ d₁.SealedIn ((handovers (stepsOf log₂)).map Handover.sealed) := by
  have hrun : leavesAfter Wire.Dvs128.device (hastySettings 1) firstPixel secondPixel (.start 3)
      fun d₁ steps result => !result.isOk && (handovers steps).isEmpty &&
        decide (d₁.pending ≠ 0 ∧ d₁.clock.deadline = some 10 ∧
          10 < (d₁.clock.tick 100).full) := by decide +kernel
  obtain ⟨d, d₁, d₂, results, log₁, steps, result, x₁, x₂, hd, h₁, h₂, htest⟩ :=
    exists_of_leavesAfter hrun
  simp only [Bool.and_eq_true, Bool.not_eq_true', decide_eq_true_eq, List.isEmpty_iff] at htest
  obtain ⟨⟨hfail, hnone⟩, hpending, hdeadline, hlate⟩ := htest
  cases result with
  | ok => cases hfail
  | error e =>
    refine ⟨d, d₁, d₂, results, log₁, steps.map .acted, e, x₁, x₂, by decide, hd, h₁,
      by decide +kernel, hpending, hdeadline, hlate, h₂, ?_⟩
    rw [stepsOf_acted, hnone]
    rintro ⟨_, hmem, -⟩
    cases hmem

end EventCamera
