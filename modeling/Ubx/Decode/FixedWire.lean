import Ubx.Decode.Fixed
import Ubx.Wire

/-!
# UBX-NAV-PVT and UBX-TIM-TP on the wire

The layouts of the two payloads of one length, and what the decoders do in terms
of them: a payload of the right length is decoded without loss
(`nav_tim_lossless`), because the fields of the layout cover it, but for the four
reserved bytes of UBX-NAV-PVT, which are a field of the layout and not of the
record.
-/

namespace Ubx.Decode

open Lib Ubx.Stream

/-! ## The layouts -/

/-- UBX-NAV-PVT in wire order. -/
def UbxNavPvt.fields (pvt : UbxNavPvt) (reserved : Vector UInt8 4) : List (List UInt8) :=
  [wireU32 pvt.iTow, wireU16 pvt.year, wireU8 pvt.month, wireU8 pvt.day, wireU8 pvt.hour,
    wireU8 pvt.minute, wireU8 pvt.second, wireU8 pvt.valid, wireU32 pvt.timeAccuracy,
    wireI32 pvt.nanosecond, wireU8 pvt.fixType, wireU8 pvt.flags, wireU8 pvt.flags2,
    wireU8 pvt.satellitesUsed, wireI32 pvt.longitude, wireI32 pvt.latitude,
    wireI32 pvt.heightEllipsoid, wireI32 pvt.heightMsl, wireU32 pvt.horizontalAccuracy,
    wireU32 pvt.verticalAccuracy, wireI32 pvt.velocityNorth, wireI32 pvt.velocityEast,
    wireI32 pvt.velocityDown, wireI32 pvt.groundSpeed, wireI32 pvt.headingMotion,
    wireU32 pvt.speedAccuracy, wireU32 pvt.headingAccuracy, wireU16 pvt.pDop, wireU16 pvt.flags3,
    reserved.toList, wireI32 pvt.headingVehicle, wireI16 pvt.magneticDeclination,
    wireU16 pvt.magneticAccuracy]

/-- The widths of its fields. -/
def UbxNavPvt.widths : List Nat :=
  [4, 2, 1, 1, 1, 1, 1, 1, 4, 4, 1, 1, 1, 1, 4, 4, 4, 4, 4, 4, 4, 4, 4, 4, 4, 4, 4, 2, 2, 4, 4, 2,
    2]

theorem navPvt_fields_widths (message : UbxNavPvt × Vector UInt8 4) :
    (message.1.fields message.2).map List.length = UbxNavPvt.widths := by
  simp [UbxNavPvt.fields, UbxNavPvt.widths]

theorem navPvt_fields_inj (message message' : UbxNavPvt × Vector UInt8 4)
    (h : message.1.fields message.2 = message'.1.fields message'.2) : message = message' := by
  obtain ⟨pvt, reserved⟩ := message
  obtain ⟨pvt', reserved'⟩ := message'
  cases pvt
  cases pvt'
  simp only [UbxNavPvt.fields, List.cons.injEq, wireU8_inj, wireU16_inj, wireU32_inj,
    wireI16_inj, wireI32_inj, Vector.toList_inj] at h
  simp only [h]

theorem navPvt_fields_ofBytes (xs : List UInt8) (h : 92 ≤ xs.length) :
    (UbxNavPvt.ofPayload xs).fields (bytesAt xs 80 4) = UbxNavPvt.widths.splitLengths xs := by
  simp (disch := omega) only [UbxNavPvt.fields, UbxNavPvt.widths, UbxNavPvt.ofPayload,
    List.splitLengths_cons, List.splitLengths_nil, List.drop_drop, Nat.reduceAdd, wireU8_at,
    wireU16_at, wireU32_at, wireI16_at, wireI32_at, bytesAt_toList, List.drop_zero]

/-- The layout of UBX-NAV-PVT: the record, and the reserved bytes 80 to 83. -/
def navPvtLayout : Layout (UbxNavPvt × Vector UInt8 4) UInt8 where
  widths := UbxNavPvt.widths
  fields message := message.1.fields message.2
  ofBytes xs := (.ofPayload xs, bytesAt xs 80 4)
  widths_fields := navPvt_fields_widths
  fields_inj := navPvt_fields_inj
  fields_ofBytes := navPvt_fields_ofBytes

/-- UBX-TIM-TP in wire order. -/
def UbxTimTp.fields (tp : UbxTimTp) : List (List UInt8) :=
  [wireU32 tp.tow, wireU32 tp.towSub, wireI32 tp.quantizationError, wireU16 tp.week,
    wireU8 tp.flags, wireU8 tp.referenceInfo]

/-- The widths of its fields. -/
def UbxTimTp.widths : List Nat := [4, 4, 4, 2, 1, 1]

theorem timTp_fields_widths (tp : UbxTimTp) : tp.fields.map List.length = UbxTimTp.widths := by
  simp [UbxTimTp.fields, UbxTimTp.widths]

theorem timTp_fields_inj (tp tp' : UbxTimTp) (h : tp.fields = tp'.fields) : tp = tp' := by
  cases tp
  cases tp'
  simp only [UbxTimTp.fields, List.cons.injEq, wireU8_inj, wireU16_inj, wireU32_inj,
    wireI32_inj] at h
  simp only [h]

theorem timTp_fields_ofBytes (xs : List UInt8) (h : 16 ≤ xs.length) :
    (UbxTimTp.ofPayload xs).fields = UbxTimTp.widths.splitLengths xs := by
  simp (disch := omega) only [UbxTimTp.fields, UbxTimTp.widths, UbxTimTp.ofPayload,
    List.splitLengths_cons, List.splitLengths_nil, List.drop_drop, Nat.reduceAdd, wireU8_at,
    wireU16_at, wireU32_at, wireI32_at, List.drop_zero]

/-- The layout of UBX-TIM-TP. -/
def timTpLayout : Layout UbxTimTp UInt8 where
  widths := UbxTimTp.widths
  fields tp := tp.fields
  ofBytes xs := .ofPayload xs
  widths_fields := timTp_fields_widths
  fields_inj := timTp_fields_inj
  fields_ofBytes := timTp_fields_ofBytes

/-! ## The decoders -/

section

variable {ρ α : Type} {ok nullArgument wrongMessage wrongLength : ρ}
  {messageClass messageId : UInt8} {payloadLength : UInt16} {fields : Option (List UInt8) → Run α}

/-- The message of the decoder, with its length and its payload there. -/
theorem fixedDecode_ok {frame : UbxFrame} {cells : List UInt8} {a : α}
    (hclass : frame.messageClass = messageClass) (hid : frame.messageId = messageId)
    (hlength : frame.payloadLength = payloadLength) (hpayload : frame.payload = some cells)
    (hfields : fields (some cells) = .ok a) (output : α) :
    fixedDecode ok nullArgument wrongMessage wrongLength messageClass messageId payloadLength fields
      (some frame) (some output) = .ok (ok, some a) := by
  unfold fixedDecode
  dsimp only
  have hmessage : ¬(frame.messageClass ≠ messageClass ∨ frame.messageId ≠ messageId) :=
    right_message hclass hid
  rw [if_neg hmessage, if_neg (not_not.mpr hlength), hpayload, if_neg (not_null _), hfields,
    ok_bind]
  rfl

/-- The output is written last, so any other result leaves it as it was. -/
theorem fixedDecode_untouched {frame : Option UbxFrame} {output output' : Option α} {r : ρ}
    (h : fixedDecode ok nullArgument wrongMessage wrongLength messageClass messageId payloadLength
      fields frame output = .ok (r, output')) (hr : r ≠ ok) : output' = output := by
  unfold fixedDecode at h
  split at h
  next =>
    split at h
    next =>
      cases h
      rfl
    next =>
      split at h
      next =>
        cases h
        rfl
      next =>
        split at h
        next =>
          cases h
          rfl
        next =>
          obtain ⟨a, -, h⟩ := bind_eq_ok.mp h
          cases h
          exact absurd rfl hr
  next =>
    cases h
    rfl

end

/-- What stands in front of the reserved bytes, and behind them, is the record's. -/
theorem navPvt_split (pvt : UbxNavPvt) :
    ∃ front back : List UInt8, front.length = 80 ∧
      ∀ reserved, navPvtLayout.bytes (pvt, reserved) = front ++ (reserved.toList ++ back) := by
  refine ⟨((pvt.fields (Vector.replicate 4 0)).take 29).flatten,
    ((pvt.fields (Vector.replicate 4 0)).drop 30).flatten, ?_, ?_⟩
  · simp [UbxNavPvt.fields]
  · intro reserved
    simp [Layout.bytes, navPvtLayout, UbxNavPvt.fields]

/-- The reserved bytes are the only ones that are not the record's. -/
theorem navPvt_outside (pvt : UbxNavPvt) (reserved reserved' : Vector UInt8 4) {i : Nat}
    (hi : i < 80 ∨ 84 ≤ i) :
    (navPvtLayout.bytes (pvt, reserved))[i]? = (navPvtLayout.bytes (pvt, reserved'))[i]? := by
  obtain ⟨front, back, hfront, hbytes⟩ := navPvt_split pvt
  rw [hbytes, hbytes]
  rcases hi with hlt | hge
  · rw [List.getElem?_append_left (by omega), List.getElem?_append_left (by omega)]
  · have hr : reserved.toList.length = 4 := Vector.length_toList
    have hr' : reserved'.toList.length = 4 := Vector.length_toList
    rw [List.getElem?_append_right (by omega), List.getElem?_append_right (by omega),
      List.getElem?_append_right (by omega), List.getElem?_append_right (by omega), hr, hr']

theorem navPvt_decode {frame : UbxFrame} {cells : List UInt8} (hclass : frame.messageClass = 0x01)
    (hid : frame.messageId = 0x07) (hlength : frame.payloadLength = 92)
    (hpayload : frame.payload = some cells) (hcells : 92 ≤ cells.length) (output : UbxNavPvt) :
    ubxNavPvtDecode (some frame) (some output) = .ok (.ok, some (.ofPayload cells)) := by
  refine fixedDecode_ok hclass hid hlength hpayload ?_ output
  have hfields := ubxNavPvtFields_front hcells []
  rwa [List.append_nil] at hfields

theorem timTp_decode {frame : UbxFrame} {cells : List UInt8} (hclass : frame.messageClass = 0x0D)
    (hid : frame.messageId = 0x01) (hlength : frame.payloadLength = 16)
    (hpayload : frame.payload = some cells) (hcells : 16 ≤ cells.length) (output : UbxTimTp) :
    ubxTimTpDecode (some frame) (some output) = .ok (.ok, some (.ofPayload cells)) := by
  refine fixedDecode_ok hclass hid hlength hpayload ?_ output
  have hfields := ubxTimTpFields_front hcells []
  rwa [List.append_nil] at hfields

/-- What was decoded, serialised: the payload, but for the reserved bytes. -/
theorem navPvt_reproduces {cells : List UInt8} (hcells : 92 ≤ cells.length)
    (reserved : Vector UInt8 4) {i : Nat} (hi : i < 92) (houtside : i < 80 ∨ 84 ≤ i) :
    (navPvtLayout.bytes (.ofPayload cells, reserved))[i]? = cells[i]? := by
  have hall : navPvtLayout.bytes (.ofPayload cells, bytesAt cells 80 4) = cells.take 92 :=
    navPvtLayout.bytes_ofBytes hcells
  rw [navPvt_outside _ reserved (bytesAt cells 80 4) houtside, hall, List.getElem?_take_of_lt hi]

/-- **Nothing is lost.** Of UBX-NAV-PVT every payload byte but the reserved ones,
of UBX-TIM-TP every payload byte is found again in the output; every value of
the two records is found again in its serialisation; and a result other than OK
leaves the output as it was. -/
theorem nav_tim_lossless :
    (∀ (frame : UbxFrame) (cells : List UInt8) (output : UbxNavPvt),
      frame.messageClass = 0x01 → frame.messageId = 0x07 → frame.payloadLength = 92 →
      frame.payload = some cells → 92 ≤ cells.length →
      ∃ pvt, ubxNavPvtDecode (some frame) (some output) = .ok (.ok, some pvt) ∧
        ∀ (reserved : Vector UInt8 4) (i : Nat), i < 92 → i < 80 ∨ 84 ≤ i →
          (pvt.fields reserved).flatten[i]? = cells[i]?) ∧
    (∀ (frame : UbxFrame) (cells : List UInt8) (output : UbxTimTp),
      frame.messageClass = 0x0D → frame.messageId = 0x01 → frame.payloadLength = 16 →
      frame.payload = some cells → 16 ≤ cells.length →
      ∃ tp, ubxTimTpDecode (some frame) (some output) = .ok (.ok, some tp) ∧
        tp.fields.flatten = cells.take 16) ∧
    (∀ (pvt output : UbxNavPvt) (reserved : Vector UInt8 4) (more : List UInt8),
      ubxNavPvtDecode (some (frameOf 0x01 0x07 (pvt.fields reserved).flatten more)) (some output)
        = .ok (.ok, some pvt)) ∧
    (∀ (tp output : UbxTimTp) (more : List UInt8),
      ubxTimTpDecode (some (frameOf 0x0D 0x01 tp.fields.flatten more)) (some output)
        = .ok (.ok, some tp)) ∧
    (∀ (frame : Option UbxFrame) (output output' : Option UbxNavPvt) (r : UbxNavPvtDecodeResult),
      ubxNavPvtDecode frame output = .ok (r, output') → r ≠ .ok → output' = output) ∧
    ∀ (frame : Option UbxFrame) (output output' : Option UbxTimTp) (r : UbxTimTpDecodeResult),
      ubxTimTpDecode frame output = .ok (r, output') → r ≠ .ok → output' = output := by
  refine ⟨?_, ?_, ?_, ?_, fun _ _ _ _ => fixedDecode_untouched,
    fun _ _ _ _ => fixedDecode_untouched⟩
  · intro frame cells output hclass hid hlength hpayload hcells
    refine ⟨_, navPvt_decode hclass hid hlength hpayload hcells output, ?_⟩
    intro reserved i hi houtside
    exact navPvt_reproduces hcells reserved hi houtside
  · intro frame cells output hclass hid hlength hpayload hcells
    exact ⟨_, timTp_decode hclass hid hlength hpayload hcells output,
      timTpLayout.bytes_ofBytes hcells⟩
  · intro pvt output reserved more
    have hlen : (pvt.fields reserved).flatten.length = 92 :=
      navPvtLayout.length_bytes (pvt, reserved)
    have hback : UbxNavPvt.ofPayload ((pvt.fields reserved).flatten ++ more) = pvt :=
      congrArg Prod.fst (navPvtLayout.ofBytes_bytes (pvt, reserved) more)
    rw [navPvt_decode rfl rfl (by rw [frameOf, hlen]; rfl) rfl
      (by rw [List.length_append]; omega), hback]
  · intro tp output more
    have hlen : tp.fields.flatten.length = 16 := timTpLayout.length_bytes tp
    have hback : UbxTimTp.ofPayload (tp.fields.flatten ++ more) = tp :=
      timTpLayout.ofBytes_bytes tp more
    rw [timTp_decode rfl rfl (by rw [frameOf, hlen]; rfl) rfl
      (by rw [List.length_append]; omega), hback]

/-- Payloads of all ones, and a missing frame. -/
theorem nav_tim_lossless_ones :
    (∃ pvt, ubxNavPvtDecode (some ⟨0x01, 0x07, 92, some (List.replicate 92 0xFF)⟩)
        (some (.ofPayload [])) = .ok (.ok, some pvt) ∧
      ∀ (reserved : Vector UInt8 4) (i : Nat), i < 92 → i < 80 ∨ 84 ≤ i →
        (pvt.fields reserved).flatten[i]? = (List.replicate 92 0xFF)[i]?) ∧
    (∃ tp, ubxTimTpDecode (some ⟨0x0D, 0x01, 16, some (List.replicate 16 0xFF)⟩)
        (some (.ofPayload [])) = .ok (.ok, some tp) ∧
      tp.fields.flatten = (List.replicate 16 0xFF).take 16) ∧
    some (UbxTimTp.ofPayload []) = some (UbxTimTp.ofPayload []) := by
  obtain ⟨hpvt, htp, -, -, -, huntouched⟩ := nav_tim_lossless
  refine ⟨hpvt _ _ _ rfl rfl rfl rfl ?_, htp _ _ _ rfl rfl rfl rfl ?_, ?_⟩
  · rw [List.length_replicate]
  · rw [List.length_replicate]
  · exact huntouched none _ _ .nullArgument rfl (by simp)

end Ubx.Decode
