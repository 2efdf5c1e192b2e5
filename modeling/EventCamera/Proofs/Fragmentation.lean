import EventCamera.Proofs.Lives

/-! # Reads of any size

It does not matter how the bytes of a device are cut into reads: the containers that a worker seals
are those of a single read. -/

namespace EventCamera

variable {dev : Device} {t : Transport}

/-- A worker went through some readings from its start to its end. No call of its decoder failed,
and the acquisition was wanted until then. -/
structure Worker.Served (settings : Settings) (readings : List Reading) (log : List Occurrence)
    (w : Worker dev t) : Prop where
  lived : ∃ source paced first x x',
    Worker.start dev settings t source paced = .ok first ∧
      Life (.again first) x log readings (.finished w) x'
  steady : Steady (stepsOf log)
  decodeErrors_eq : w.totals.decodeErrors = 0

/-- One call for the whole units among some bytes, and then a flush. -/
def oneRead (width : Nat) (bytes : List UInt8) : List Call :=
  [.decode (bytes.take (bytes.length - bytes.length % width)), .flush]

/-- The books after a run over the units of all bytes, and the last step. -/
def onePass (d : Decoder dev) (bytes : List UInt8) : Ledger dev :=
  ({ decoder := d } : Ledger dev).run ((Decoder.units dev.unitWidth bytes).map .unit ++ [.rest])

/-- A read of whole units whose steps do not fail, and a flush after it, take the books through all
of the units and the last step. -/
theorem Ledger.trace_oneRead {b b' : Ledger dev} {bytes : List UInt8} {steps : List Step}
    {results : List (Except DecodeError Unit)} (hwidth : 0 < dev.unitWidth)
    (h : Trace (session Ledger.call (oneRead dev.unitWidth bytes) b) steps (b', results))
    (hsucceeds : b.Succeeds ((Decoder.units dev.unitWidth bytes).map .unit))
    (hsteady : Steady steps) :
    b.Course ((Decoder.units dev.unitWidth bytes).map .unit ++ [.rest]) (handovers steps) b' := by
  have hunits := units_partUnits hwidth bytes
  rw [partUnits_fst] at hunits
  obtain ⟨⟨b₁, result⟩, before, _, hdecode, hrest, rfl⟩ := h.of_bind
  obtain ⟨⟨b₂, results⟩, after, _, hlast, hend, rfl⟩ := hrest.of_bind
  obtain ⟨⟨b₃, result'⟩, after, _, hflush, hnone, rfl⟩ := hlast.of_bind
  obtain ⟨_, _, _, hdone, hnil, rfl⟩ := hnone.of_bind
  cases hdone
  cases hnil
  cases hend
  simp only [List.append_nil, handovers_append] at hsteady ⊢
  have hok := isOk_decode hdecode (hunits ▸ hsucceeds)
  obtain ⟨decoded, -, hcourse, hall⟩ := trace_decode hdecode
  rw [(hall hok).2 (steady_append.1 hsteady).1, hunits] at hcourse
  exact hcourse.append (trace_flush hflush).1

namespace Worker

variable {settings : Settings} {readings : List Reading} {log : List Occurrence}
  {w : Worker dev t}

/-- A worker that came to its end has sealed what one run over the units of all its bytes seals, and
has counted each container as published or dropped. -/
theorem Served.ran (h : w.Served settings readings log) :
    ∃ d, 0 < dev.unitWidth ∧ Decoder.start dev settings = .ok d ∧
      ({ decoder := d } : Ledger dev).Succeeds
        ((Decoder.units dev.unitWidth (delivered readings)).map .unit) ∧
      (handovers (stepsOf log)).map Handover.sealed = (onePass d (delivered readings)).sealed ∧
      w.decoder = (onePass d (delivered readings)).decoder.count (handovers (stepsOf log)) ∧
      w.total.bytes = (delivered readings).length ∧
      w.total.commits.published + w.total.commits.dropped =
        (onePass d (delivered readings)).sealed.length := by
  obtain ⟨source, paced, first, x, x', hstart, hlife⟩ := h.lived
  obtain ⟨hwidth, hdecoder, hhasRead⟩ := hasRead_start hstart
  obtain ⟨hbytes, hcourse⟩ := hlife.through hwidth h.steady hhasRead
  obtain ⟨hsucceeds, b, hcourse, hb⟩ := hcourse h.decodeErrors_eq
  have hsealed : (handovers (stepsOf log)).map Handover.sealed =
      (onePass first.decoder (delivered readings)).sealed := hcourse.map_sealed rfl
  have hran : w.decoder = (onePass first.decoder (delivered readings)).decoder.count
      (handovers (stepsOf log)) := by
    rw [← hb, hcourse.end_eq]
    rfl
  refine ⟨first.decoder, hwidth, hdecoder, hsucceeds, hsealed, hran, hbytes, ?_⟩
  have htotals : w.total.commits = CommitTotals.count {} (handovers (stepsOf log)) := by
    rw [← (Decoder.start_ok hdecoder).totals_eq]
    refine (congrArg (·.collector.totals) hran).trans ?_
    exact congrArg (CommitTotals.count · _) (Ledger.totals_run _ _)
  rw [← hsealed, List.length_map, htotals, CommitTotals.count_eq]
  simpa using h.steady.countP_handovers

/-- Two workers sealed the same containers in the same order, are at the same time, and report the
same. A single call for the whole units of all bytes, with a flush after it, can be made, and seals
these containers too. -/
structure Agree {t₁ t₂ : Transport} (settings : Settings) (bytes : List UInt8)
    (log₁ log₂ : List Occurrence) (w₁ : Worker dev t₁) (w₂ : Worker dev t₂) : Prop where
  sealed_eq : (handovers (stepsOf log₁)).map Handover.sealed =
    (handovers (stepsOf log₂)).map Handover.sealed
  clock_eq : w₁.decoder.clock = w₂.decoder.clock
  bytes_eq : w₁.total.bytes = w₂.total.bytes
  count_eq : w₁.total.commits.published + w₁.total.commits.dropped =
    w₂.total.commits.published + w₂.total.commits.dropped
  oneRead : ∃ d, Decoder.start dev settings = .ok d ∧
    (∀ x : Exchange, x.Bounded → ∃ log r x',
      Execution (session Decoder.call (oneRead dev.unitWidth bytes) d) x log r x' ∧
        Steady (stepsOf log)) ∧
    ∀ x log r x', Execution (session Decoder.call (oneRead dev.unitWidth bytes) d) x log r x' →
      Steady (stepsOf log) →
      (handovers (stepsOf log)).map Handover.sealed =
        (handovers (stepsOf log₁)).map Handover.sealed

/-- It does not matter how the bytes of a device are cut into reads. -/
theorem served_agree {t₁ t₂ : Transport} {readings₁ readings₂ : List Reading}
    {log₁ log₂ : List Occurrence} {w₁ : Worker dev t₁} {w₂ : Worker dev t₂}
    (h₁ : w₁.Served settings readings₁ log₁) (h₂ : w₂.Served settings readings₂ log₂)
    (hbytes : delivered readings₁ = delivered readings₂) :
    Agree settings (delivered readings₁) log₁ log₂ w₁ w₂ := by
  obtain ⟨d, hwidth, hd, hsucceeds, hsealed₁, hran₁, hbytes₁, hcount₁⟩ := h₁.ran
  obtain ⟨d', -, hd', -, hsealed₂, hran₂, hbytes₂, hcount₂⟩ := h₂.ran
  obtain rfl : d = d' := Except.ok.inj (hd.symm.trans hd')
  rw [← hbytes] at hsealed₂ hran₂ hbytes₂ hcount₂
  refine {
    sealed_eq := hsealed₁.trans hsealed₂.symm
    clock_eq := ?_
    bytes_eq := hbytes₁.trans hbytes₂.symm
    count_eq := hcount₁.trans hcount₂.symm
    oneRead := ⟨d, hd, fun x hx => Producer.exists_steady _ hx, ?_⟩ }
  · rw [hran₁, hran₂]
    rfl
  · rintro x log ⟨d', results⟩ x' h hsteady
    obtain ⟨b, hb, -⟩ := Ledger.exists_execution { decoder := d } h
    have hcourse := Ledger.trace_oneRead hwidth hb.trace hsucceeds hsteady
    exact (hcourse.map_sealed rfl).trans hsealed₁.symm

def servedAlone (dev : Device) (settings : Settings) (source : Source)
    (readings : List Reading) : Bool :=
  match start dev settings Source.transport source false with
  | .error _ => false
  | .ok first =>
    match (Turn.again first).alone source.reads (.start settings.queueCapacity) with
    | some (steps, read, .finished w, _) =>
      steps.all Step.goesOn && w.totals.decodeErrors == 0 && read == readings
    | _ => false

theorem exists_served {source : Source}
    (h : servedAlone dev settings source readings) :
    ∃ (w : Worker dev Source.transport) (log : List Occurrence),
      w.Served settings readings log := by
  unfold servedAlone at h
  split at h
  · cases h
  · rename_i first hstart
    split at h
    · rename_i steps read w x' halone
      simp only [Bool.and_eq_true, beq_iff_eq] at h
      obtain ⟨⟨hsteady, herrors⟩, rfl⟩ := h
      refine ⟨w, steps.map .acted, ⟨source, false, first, _, x', hstart,
        Turn.life_of_alone halone⟩, ?_, herrors⟩
      rw [stepsOf_acted]
      exact List.all_eq_true.1 hsteady
    · cases h

open Wire.Dvs128 in
/-- Pixels of a DVS128 around a wrap and around a reset, and the first bytes of another unit. -/
def sampleBytes : List UInt8 :=
  encode (address 3 4 true) 100 0 ++ encodeWrap ++ encode (address 3 5 true) 7 0 ++ encodeReset ++
    encode (address 9 4 false) 20 0 ++ [1, 2]

theorem served_agree_dvs128 :
    ∃ (w₁ w₂ : Worker Wire.Dvs128.device Source.transport) (log₁ log₂ : List Occurrence),
      w₁.Served {} [.data sampleBytes, .data []] log₁ ∧
      w₂.Served {} [.data (sampleBytes.take 3), .unavailable, .data (sampleBytes.drop 3), .data []]
        log₂ ∧
      Agree {} sampleBytes log₁ log₂ w₁ w₂ := by
  have hwhole : servedAlone Wire.Dvs128.device {} { pieces := [.data sampleBytes] }
      [.data sampleBytes, .data []] := by decide +kernel
  have hcut : servedAlone Wire.Dvs128.device {}
      { pieces := [.data (sampleBytes.take 3), .unavailable, .data (sampleBytes.drop 3)] }
      [.data (sampleBytes.take 3), .unavailable, .data (sampleBytes.drop 3), .data []] := by
    decide +kernel
  obtain ⟨w₁, log₁, h₁⟩ := exists_served hwhole
  obtain ⟨w₂, log₂, h₂⟩ := exists_served hcut
  exact ⟨w₁, w₂, log₁, log₂, h₁, h₂, served_agree h₁ h₂ (by decide +kernel)⟩

end Worker

end EventCamera
