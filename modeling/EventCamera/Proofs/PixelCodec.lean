import EventCamera.Proofs.Framing
import EventCamera.Proofs.Overdue
import EventCamera.Proofs.Pixels

/-! # The pixel format of the DVS128

A pixel of a DVS128 fills a unit. Its address word holds the place, upside down, and the inverted
polarity, and its time word holds the tick. As long as the flags are clear no bit is left over, so that
pixels and their units determine each other. -/

namespace EventCamera

namespace Wire

theorem bytes_word (low high : UInt8) : bytes (word low high) = [low, high] := by
  have hlow : UInt8.ofNat (word low high) = low := by
    rw [← UInt8.toNat_inj, UInt8.toNat_ofNat']
    have := low.toNat_lt
    simp only [word]
    omega
  have hhigh : UInt8.ofNat (word low high / 256) = high := by
    rw [← UInt8.toNat_inj, UInt8.toNat_ofNat']
    have := low.toNat_lt
    have := high.toNat_lt
    simp only [word]
    omega
  rw [bytes, hlow, hhigh]

theorem word_of_bytes {n : Nat} (h : n < 2 ^ 16) :
    word (UInt8.ofNat n) (UInt8.ofNat (n / 256)) = n := by
  simp only [word, UInt8.toNat_ofNat']
  omega

namespace Dvs128

/-- A change of brightness as a DVS128 tells of it. -/
structure Pixel where
  x : Fin 128
  y : Fin 128
  on : Bool
  tick : Fin (2 ^ 14)

namespace Pixel

def unit (p : Pixel) : List UInt8 :=
  encode (address p.x p.y p.on) p.tick 0

def event (p : Pixel) : PolarityEvent :=
  ⟨.ofNat p.x, .ofNat p.y, p.on, p.tick.val⟩

end Pixel

/-- The unit of a pixel behind its tick. -/
def encodeCodes : List Code → List UInt8
  | [.tick ticks, .pixel x y on] => encode (address x.toNat y.toNat on) ticks.toNat 0
  | _ => []

/-! ## Units -/

theorem address_eq {x y : Nat} (hx : x < 128) (hy : y < 128) (on : Bool) :
    address x y on = 256 * (127 - y) + 2 * (127 - x) + if on then 0 else 1 := by
  simp only [address, arraySize, Nat.shiftLeft_eq, Nat.mod_eq_of_lt hx, Nat.mod_eq_of_lt hy]
  omega

theorem address_pixel {a : Nat} (h : a < 2 ^ 15) :
    address (127 - field a 1 7) (127 - field a 8 7) (!flag a 0) = a := by
  rw [address_eq (by omega) (by omega)]
  simp only [flag, field_eq]
  by_cases hodd : a % 2 = 1
  · simp [hodd]
    omega
  · simp [hodd]
    omega

theorem pixel_address {x y : Nat} (hx : x < 128) (hy : y < 128) (on : Bool) :
    pixel (address x y on) = .pixel (.ofNat x) (.ofNat y) on := by
  have hcolumn : field (address x y on) 1 7 = 127 - x := by
    rw [address_eq hx hy, field_eq]
    split <;> omega
  have hrow : field (address x y on) 8 7 = 127 - y := by
    rw [address_eq hx hy, field_eq]
    split <;> omega
  have hon : (!flag (address x y on) 0) = on := by
    rw [address_eq hx hy, flag, field_eq]
    cases on <;> simp <;> omega
  have hflip {n : Nat} (h : n < 128) : arraySize - 1 - (127 - n) = n := by
    unfold arraySize
    omega
  rw [pixel, hcolumn, hrow, hon, hflip hx, hflip hy]

theorem encode_eq {tick : Nat} (h : tick < 2 ^ 14) (address : Nat) :
    encode address tick 0 = bytes address ++ bytes tick := by
  have htime : field tick 0 14 + field 0 6 2 <<< 14 = tick := by
    simp only [field_eq, Nat.shiftLeft_eq]
    omega
  rw [encode, htime]

/-- The unit of a pixel is read as its tick and itself. -/
theorem codes_unit (p : Pixel) :
    codes p.unit = [.tick (.ofNat p.tick), .pixel (.ofNat p.x) (.ofNat p.y) p.on] := by
  have hsync : address p.x p.y p.on < 2 ^ 15 := by
    rw [address_eq p.x.isLt p.y.isLt]
    split <;> omega
  have haddress := word_of_bytes (Nat.lt_trans hsync (by decide))
  have htime := word_of_bytes (Nat.lt_trans p.tick.isLt (by decide))
  rw [Pixel.unit, encode_eq p.tick.isLt]
  refine (codes_of_clear (haddress.symm ▸ hsync) (htime.symm ▸ p.tick.isLt)).trans ?_
  rw [haddress, htime, pixel_address p.x.isLt p.y.isLt]

theorem encodeCodes_codes {unit : List UInt8} (h : (pixelTicks? unit).isSome) :
    encodeCodes (codes unit) = unit := by
  unfold pixelTicks? at h
  split at h
  · rename_i addressLow addressHigh low high
    split at h
    · rename_i hclear
      obtain ⟨htime, hsync⟩ := hclear
      -- every number that the codes carry fits its type, so that it is read back as it was
      have hcoordinate (n : Nat) : (UInt16.ofNat (127 - n)).toNat = 127 - n := by
        rw [UInt16.toNat_ofNat']
        omega
      have hticks : (UInt32.ofNat (word low high)).toNat = word low high := by
        rw [UInt32.toNat_ofNat']
        omega
      rw [codes_of_clear hsync htime]
      simp only [pixel, encodeCodes, arraySize, hcoordinate, hticks, address_pixel hsync,
        encode_eq htime, bytes_word]
      rfl
    · cases h
  · cases h

/-! ## Streams -/

theorem contains_pixel (p : Pixel) : device.geometry.contains (.ofNat p.x) (.ofNat p.y) := by
  have hlt (n : Fin 128) : UInt16.ofNat n < UInt16.ofNat arraySize := by
    rw [UInt16.lt_iff_toNat_lt, UInt16.toNat_ofNat', Nat.mod_eq_of_lt (by omega)]
    exact n.isLt
  simp only [Geometry.contains, device, hlt, decide_true, Bool.and_true]

theorem visual_unit (p : Pixel) : Camera.dvs128.Visual p.unit := by
  intro s code hcode
  replace hcode : code ∈ codes p.unit := hcode
  rw [codes_unit] at hcode
  simp only [List.mem_cons, List.not_mem_nil, or_false] at hcode
  rcases hcode with rfl | rfl <;> trivial

theorem view_pixels (pixels : List Pixel) (s : Camera.dvs128.device.State) (e : Elapsed) :
    Camera.dvs128.view s e (pixels.map Pixel.unit) = pixels.map Pixel.event := by
  induction pixels generalizing s e with
  | nil => rfl
  | cons p pixels ih =>
    have hticks : p.tick.val < 2 ^ 15 := Nat.lt_trans p.tick.isLt (by decide)
    have hcodes : (Camera.dvs128.device.classify s p.unit).codes =
        [.tick (.ofNat p.tick), .pixel (.ofNat p.x) (.ofNat p.y) p.on] := codes_unit p
    have hmark : Camera.dvs128.mark p.unit = .tick p.tick := Camera.mark_of_tick hcodes hticks
    have hshown : [Code.tick (.ofNat p.tick), .pixel (.ofNat p.x) (.ofNat p.y) p.on].flatMap
        (Code.pixels device.geometry p.tick) = [p.event] := by
      simp [Code.pixels, contains_pixel, Pixel.event]
    calc Camera.dvs128.view s e (p.unit :: pixels.map Pixel.unit)
        = _ ++ Camera.dvs128.view _ (e.after (.tick p.tick)) (pixels.map Pixel.unit) :=
          Camera.view_cons hcodes rfl hmark e _
      _ = [p.event] ++ pixels.map Pixel.event := congrArg₂ _ hshown (ih ..)

theorem units_flatMap_unit (pixels : List Pixel) :
    Decoder.units 4 (pixels.flatMap Pixel.unit) = pixels.map Pixel.unit := by
  rw [List.flatMap_def]
  refine Decoder.units_flatten fun unit hunit => ?_
  obtain ⟨p, -, rfl⟩ := List.mem_map.1 hunit
  rfl

theorem flatMap_encodeCodes {bytes : List UInt8} (hwhole : 4 ∣ bytes.length)
    (hclear : ∀ unit ∈ Decoder.units 4 bytes, (pixelTicks? unit).isSome) :
    (Decoder.units 4 bytes).flatMap (fun unit => encodeCodes (codes unit)) = bytes := by
  have hmap : (Decoder.units 4 bytes).map (fun unit => encodeCodes (codes unit)) =
      Decoder.units 4 bytes := by
    rw [List.map_congr_left fun unit hunit => encodeCodes_codes (hclear unit hunit), List.map_id']
  rw [List.flatMap_def, hmap]
  exact Decoder.flatten_units hwhole

end Dvs128

end Wire

open Wire.Dvs128 (Pixel pixelTicks? encodeCodes)

/-- Pixels of a DVS128 and their units determine each other. A session that reads the units of pixels, in
reads of whole units, with any flushes in between, and in which no call fails, adds these pixels in their
order and nothing else; and no call fails under settings that leave room for what a sealing may have to
wait for. Conversely, units without flags are what the codes that are read from them are encoded as. -/
theorem pixel_codec :
    (∀ {settings : Settings} {d d' : Decoder Wire.Dvs128.device} {pixels : List Pixel}
      {calls : List Call} {x x' : Exchange} {log : List Occurrence}
      {results : List (Except DecodeError Unit)},
      calls.flatMap (Call.units 4) = Decoder.units 4 (pixels.flatMap Pixel.unit) →
      Decoder.start Wire.Dvs128.device settings = .ok d →
      Execution (session Decoder.call calls d) x log (d', results) x' → Steady (stepsOf log) →
      ((∀ r ∈ results, r.isOk) → ∀ k, d'.found (handovers (stepsOf log)) k =
        (only .polarity (pixels.map Pixel.event) k).map (·, 0)) ∧
      (settings.Spacious → ∀ r ∈ results, r.isOk)) ∧
    ∀ {bytes : List UInt8}, 4 ∣ bytes.length →
      (∀ unit ∈ Decoder.units 4 bytes, (pixelTicks? unit).isSome) →
      (Decoder.units 4 bytes).flatMap (fun unit =>
        encodeCodes (Wire.Dvs128.device.classify Wire.Dvs128.device.initial unit).codes) = bytes := by
  constructor
  · intro settings d d' pixels calls x x' log results hcalls hstart h hsteady
    refine session_shows (c := .dvs128) (hcalls.trans (Wire.Dvs128.units_flatMap_unit pixels)) ?_
      (Wire.Dvs128.view_pixels pixels _ _) hstart h hsteady
    intro unit hunit
    obtain ⟨p, -, rfl⟩ := List.mem_map.1 hunit
    exact Wire.Dvs128.visual_unit p
  · intro bytes hwhole hclear
    exact Wire.Dvs128.flatMap_encodeCodes hwhole hclear

def Wire.Dvs128.Pixel.samples : List Pixel :=
  [⟨0, 0, true, 16383⟩, ⟨127, 0, false, 16383⟩, ⟨0, 127, true, 5⟩]

theorem pixel_codec_sample :
    ∃ (d d' : Decoder Wire.Dvs128.device) (log : List Occurrence)
      (results : List (Except DecodeError Unit)) (x' : Exchange),
      Decoder.start Wire.Dvs128.device {} = .ok d ∧
      Execution (session Decoder.call (Pixel.samples.flatMap fun p => [.decode p.unit, .flush]) d)
        (.start 2) log (d', results) x' ∧
      Steady (stepsOf log) ∧ (∀ r ∈ results, r.isOk) ∧
      d'.found (handovers (stepsOf log)) .polarity =
        [(⟨0, 0, true, 16383⟩, 0), (⟨127, 0, false, 16383⟩, 0), (⟨0, 127, true, 5⟩, 0)] ∧
      (Decoder.units 4 [0xff, 0x7f, 0x34, 0x12, 0x02, 0x01, 0, 0]).flatMap (fun unit =>
          encodeCodes (Wire.Dvs128.device.classify Wire.Dvs128.device.initial unit).codes) =
        [0xff, 0x7f, 0x34, 0x12, 0x02, 0x01, 0, 0] := by
  have hrun : undisturbed Wire.Dvs128.device {}
      (Pixel.samples.flatMap fun p => [.decode p.unit, .flush]) (.start 2) := by decide +kernel
  obtain ⟨d, d', results, log, x', hd, h, -, hsteady⟩ := exists_of_undisturbed hrun
  have hcalls : (Pixel.samples.flatMap fun p => [.decode p.unit, .flush]).flatMap (Call.units 4) =
      Decoder.units 4 (Pixel.samples.flatMap Pixel.unit) := by decide +kernel
  obtain ⟨hfound, hspacious⟩ := pixel_codec.1 hcalls hd h hsteady
  have hok := hspacious Settings.spacious_default
  refine ⟨d, d', log, results, x', hd, h, hsteady, hok, hfound hok .polarity, ?_⟩
  exact pixel_codec.2 (by decide) (by decide +kernel)

end EventCamera
