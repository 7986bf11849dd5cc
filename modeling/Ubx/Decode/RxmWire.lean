import Ubx.Decode.Rxm
import Ubx.Wire

/-!
# UBX-RXM-RAWX and UBX-RXM-SFRBX on the wire

Messages of a header and counted records. A `RawxMessage` is what a receiver can
send: header fields, at most 255 measurements, and the reserved bytes, with the
count and the version where the layout has them. `rawx_lossless` says that the
two decoders find all of it again.

Both record decoders begin with the validator of their header decoder. What it
says of a readable frame is one lemma (`ubxRxmCountedValidate_cases`): it refuses
it, or the payload is the header and the records counted in it. That the two
decoders agree on every frame is read off there.
-/

namespace Ubx.Decode

open Lib Ubx.Stream

/-! ## What the validators accept -/

section

variable {messageId version : UInt8} {headerLength : UInt16}
  {versionOffset countOffset recordLength : Nat}

/-- A readable frame is refused, or its payload is the header and the records counted. -/
theorem ubxRxmCountedValidate_cases {frame : Option UbxFrame}
    (hreadable : ∀ f ∈ frame, f.Readable) (hversion : versionOffset < headerLength.toNat)
    (hcount : countOffset < headerLength.toNat) :
    (∃ r, r ≠ .ok ∧ ubxRxmCountedValidate messageId headerLength versionOffset version countOffset
        recordLength frame = .ok (.error r)) ∨
      ∃ (f : UbxFrame) (xs more : List UInt8), frame = some (f.withPayload (some (xs ++ more))) ∧
        f.payloadLength.toNat = xs.length ∧
        xs.length = headerLength.toNat + (byteAt xs countOffset).toNat * recordLength ∧
        ubxRxmCountedValidate messageId headerLength versionOffset version countOffset recordLength
          frame = .ok (.ok ()) := by
  cases frame with
  | none => exact Or.inl ⟨.nullArgument, by simp, rfl⟩
  | some f =>
    cases hpayload : f.payload with
    | none => exact Or.inl ⟨.nullArgument, by simp, ubxRxmCountedValidate_null hpayload⟩
    | some cells =>
      obtain ⟨hsplit, hlen⟩ := (hreadable f rfl).split hpayload
      rw [hsplit]
      generalize cells.take f.payloadLength.toNat = xs at hlen ⊢
      rw [ubxRxmCountedValidate_front hlen hversion hcount]
      -- the checks in the order of the C function
      split
      next => exact Or.inl ⟨.wrongMessage, by simp, rfl⟩
      next =>
        split
        next => exact Or.inl ⟨.wrongLength, by simp, rfl⟩
        next =>
          split
          next => exact Or.inl ⟨.unsupportedVersion, by simp, rfl⟩
          next =>
            split
            next => exact Or.inl ⟨.wrongLength, by simp, rfl⟩
            next hexpected =>
              exact Or.inr ⟨f, xs, _, rfl, hlen, hlen ▸ not_not.mp hexpected, rfl⟩

end

/-! ## UBX-RXM-RAWX -/

/-- The header of UBX-RXM-RAWX in wire order. -/
def UbxRxmRawx.fields (rawx : UbxRxmRawx) (reserved : Vector UInt8 2) : List (List UInt8) :=
  [wireU64 rawx.receiverTow, wireU16 rawx.week, wireI8 rawx.leapSeconds,
    wireU8 rawx.measurementCount, wireU8 rawx.receiverStatus, wireU8 rawx.version, reserved.toList]

/-- The widths of its fields. -/
def UbxRxmRawx.widths : List Nat := [8, 2, 1, 1, 1, 1, 2]

theorem rawx_fields_widths (header : UbxRxmRawx × Vector UInt8 2) :
    (header.1.fields header.2).map List.length = UbxRxmRawx.widths := by
  simp [UbxRxmRawx.fields, UbxRxmRawx.widths]

theorem rawx_fields_inj (header header' : UbxRxmRawx × Vector UInt8 2)
    (h : header.1.fields header.2 = header'.1.fields header'.2) : header = header' := by
  obtain ⟨rawx, reserved⟩ := header
  obtain ⟨rawx', reserved'⟩ := header'
  cases rawx
  cases rawx'
  simp only [UbxRxmRawx.fields, List.cons.injEq, wireU8_inj, wireU16_inj, wireU64_inj, wireI8_inj,
    Vector.toList_inj] at h
  simp only [h]

theorem rawx_fields_ofBytes (xs : List UInt8) (h : 16 ≤ xs.length) :
    (UbxRxmRawx.ofPayload xs).fields (bytesAt xs 14 2) = UbxRxmRawx.widths.splitLengths xs := by
  simp (disch := omega) only [UbxRxmRawx.fields, UbxRxmRawx.widths, UbxRxmRawx.ofPayload,
    List.splitLengths_cons, List.splitLengths_nil, List.drop_drop, Nat.reduceAdd, wireU8_at,
    wireU16_at, wireU64_at, wireI8_at, bytesAt_toList, List.drop_zero]

/-- The layout of the header. -/
def rawxLayout : Layout (UbxRxmRawx × Vector UInt8 2) UInt8 where
  widths := UbxRxmRawx.widths
  fields header := header.1.fields header.2
  ofBytes xs := (.ofPayload xs, bytesAt xs 14 2)
  widths_fields := rawx_fields_widths
  fields_inj := rawx_fields_inj
  fields_ofBytes := rawx_fields_ofBytes

theorem rawxLayout_fst (xs : List UInt8) : (rawxLayout.ofBytes xs).1 = .ofPayload xs := rfl

/-- A measurement in wire order; byte 31 is reserved. -/
def UbxRxmRawxMeasurement.fields (m : UbxRxmRawxMeasurement) (reserved : UInt8) :
    List (List UInt8) :=
  [wireU64 m.pseudorange, wireU64 m.carrierPhase, wireU32 m.doppler, wireU8 m.gnssId,
    wireU8 m.satelliteId, wireU8 m.signalId, wireU8 m.frequencyId, wireU16 m.lockTime, wireU8 m.cno,
    wireU8 m.pseudorangeStdev, wireU8 m.carrierPhaseStdev, wireU8 m.dopplerStdev,
    wireU8 m.trackingStatus, wireU8 reserved]

/-- The widths of its fields. -/
def UbxRxmRawxMeasurement.widths : List Nat := [8, 8, 4, 1, 1, 1, 1, 2, 1, 1, 1, 1, 1, 1]

theorem measurement_fields_widths (record : UbxRxmRawxMeasurement × UInt8) :
    (record.1.fields record.2).map List.length = UbxRxmRawxMeasurement.widths := by
  simp [UbxRxmRawxMeasurement.fields, UbxRxmRawxMeasurement.widths]

theorem measurement_fields_inj (record record' : UbxRxmRawxMeasurement × UInt8)
    (h : record.1.fields record.2 = record'.1.fields record'.2) : record = record' := by
  obtain ⟨m, reserved⟩ := record
  obtain ⟨m', reserved'⟩ := record'
  cases m
  cases m'
  simp only [UbxRxmRawxMeasurement.fields, List.cons.injEq, wireU8_inj, wireU16_inj, wireU32_inj,
    wireU64_inj] at h
  simp only [h]

theorem measurement_fields_ofBytes (xs : List UInt8) (h : 32 ≤ xs.length) :
    (UbxRxmRawxMeasurement.ofPayload xs 0).fields (byteAt xs 31)
      = UbxRxmRawxMeasurement.widths.splitLengths xs := by
  simp (disch := omega) only [UbxRxmRawxMeasurement.fields, UbxRxmRawxMeasurement.widths,
    UbxRxmRawxMeasurement.ofPayload, List.splitLengths_cons, List.splitLengths_nil, List.drop_drop,
    Nat.reduceAdd, wireU8_at, wireU16_at, wireU32_at, wireU64_at, List.drop_zero]

/-- The layout of a measurement. -/
def measurementLayout : Layout (UbxRxmRawxMeasurement × UInt8) UInt8 where
  widths := UbxRxmRawxMeasurement.widths
  fields record := record.1.fields record.2
  ofBytes xs := (.ofPayload xs 0, byteAt xs 31)
  widths_fields := measurement_fields_widths
  fields_inj := measurement_fields_inj
  fields_ofBytes := measurement_fields_ofBytes

/-- The record at an offset is the first record behind it. -/
theorem measurementLayout_fst (xs : List UInt8) (p : Nat) :
    (measurementLayout.ofBytes (xs.drop p)).1 = .ofPayload xs p := by
  show UbxRxmRawxMeasurement.ofPayload (xs.drop p) 0 = _
  simp only [UbxRxmRawxMeasurement.ofPayload, byteAt_drop, u16At_drop, u32At_drop, u64At_drop,
    Nat.zero_add, Nat.add_zero]

/-- A message of UBX-RXM-RAWX: what the receiver puts in it. -/
structure RawxMessage where
  receiverTow : UInt64
  week : UInt16
  leapSeconds : Int8
  receiverStatus : UInt8
  reserved : Vector UInt8 2
  /-- the measurements, each with its reserved byte -/
  measurements : List (UbxRxmRawxMeasurement × UInt8)
  count_le : measurements.length ≤ 255

namespace RawxMessage

/-- The header, with the count and version 1. -/
def header (m : RawxMessage) : UbxRxmRawx where
  receiverTow := m.receiverTow
  week := m.week
  leapSeconds := m.leapSeconds
  measurementCount := UInt8.ofNat m.measurements.length
  receiverStatus := m.receiverStatus
  version := 1

/-- The message on the wire. -/
def payload (m : RawxMessage) : List UInt8 :=
  rawxLayout.bytes (m.header, m.reserved) ++ measurementLayout.records m.measurements

/-- The message as a received frame. -/
def frame (m : RawxMessage) (more : List UInt8) : UbxFrame := frameOf 0x02 0x15 m.payload more

theorem length_payload (m : RawxMessage) : m.payload.length = 16 + m.measurements.length * 32 := by
  rw [payload, List.length_append, Layout.length_bytes, Layout.length_records]
  rfl

theorem count_toNat (m : RawxMessage) :
    m.header.measurementCount.toNat = m.measurements.length := by
  have hle := m.count_le
  show (UInt8.ofNat m.measurements.length).toNat = _
  rw [UInt8.toNat_ofNat']
  omega

theorem frame_length (m : RawxMessage) (more : List UInt8) :
    (m.frame more).payloadLength.toNat = m.payload.length := by
  have hle := m.count_le
  exact frameOf_length (by rw [m.length_payload]; omega) more

/-- The header is found again. -/
theorem ofPayload_header (m : RawxMessage) : UbxRxmRawx.ofPayload m.payload = m.header := by
  have hback := rawxLayout.ofBytes_bytes (m.header, m.reserved)
    (measurementLayout.records m.measurements)
  rw [payload, ← rawxLayout_fst, hback]

/-- A measurement is found again at its place. -/
theorem ofPayload_measurement (m : RawxMessage) {k : Nat} (h : k < m.measurements.length) :
    UbxRxmRawxMeasurement.ofPayload m.payload (16 + k * 32) = m.measurements[k].1 := by
  have hheader : (rawxLayout.bytes (m.header, m.reserved)).length = 16 := rawxLayout.length_bytes _
  have hrecord := measurementLayout.ofBytes_behind hheader h
  have hwidth : measurementLayout.width = 32 := rfl
  rw [hwidth] at hrecord
  rw [payload, ← measurementLayout_fst, hrecord]

/-- The validator accepts the message. -/
theorem validate (m : RawxMessage) (more : List UInt8) :
    ubxRxmRawxValidate (some (m.frame more)) = .ok (.ok ()) := by
  have hlen := m.length_payload
  have hversion : byteAt m.payload 13 = 1 := congrArg UbxRxmRawx.version m.ofPayload_header
  have hcount : (byteAt m.payload 11).toNat = m.measurements.length := by
    rw [← m.count_toNat, ← m.ofPayload_header]
    rfl
  have hshort : ¬ (m.frame more).payloadLength < 16 := by
    rw [UInt16.not_lt, UInt16.le_iff_toNat_le, m.frame_length, hlen]
    exact Nat.le_add_right 16 _
  have hmessage : ¬((m.frame more).messageClass ≠ 0x02 ∨ (m.frame more).messageId ≠ 0x15) :=
    right_message rfl rfl
  have hfront := @ubxRxmCountedValidate_front (m.frame more) m.payload 0x15 0x01 16 13 11 32
    (m.frame_length more) (by simp) (by simp) more
  have hexpected : ¬ (m.frame more).payloadLength.toNat
      ≠ UInt16.toNat 16 + (byteAt m.payload 11).toNat * 32 := by
    rw [m.frame_length, hcount, hlen]
    exact not_not.mpr rfl
  rw [if_neg hmessage, if_neg hshort, if_neg (not_not.mpr hversion), if_neg hexpected] at hfront
  exact hfront

end RawxMessage

section

variable {f : UbxFrame} {xs more : List UInt8}

/-- The header of an accepted frame. -/
theorem ubxRxmRawxDecode_reads (h : 16 ≤ xs.length)
    (haccept : ubxRxmRawxValidate (some (f.withPayload (some (xs ++ more)))) = .ok (.ok ()))
    (output : UbxRxmRawx) :
    ubxRxmRawxDecode (some (f.withPayload (some (xs ++ more)))) (some output)
      = .ok (.ok, some (.ofPayload xs)) := by
  rw [ubxRxmRawxDecode, haccept]
  apply decodeInto_read
  rw [deref_some, ok_bind, UbxFrame.withPayload_payload, ubxRxmRawxFields_front (by omega), ok_bind]
  rfl

/-- The measurements of an accepted frame. -/
theorem ubxRxmRawxMeasurementDecode_reads (hcount : xs.length = 16 + (byteAt xs 11).toNat * 32)
    (haccept : ubxRxmRawxValidate (some (f.withPayload (some (xs ++ more)))) = .ok (.ok ()))
    (k : UInt16) (output : UbxRxmRawxMeasurement) :
    ubxRxmRawxMeasurementDecode (some (f.withPayload (some (xs ++ more)))) k (some output)
      = .ok (if k.toNat < (byteAt xs 11).toNat then
            (.ok, some (.ofPayload xs (16 + k.toNat * 32)))
          else (.indexOutOfRange, some output)) := by
  rw [ubxRxmRawxMeasurementDecode, haccept]
  by_cases hindex : k.toNat < (byteAt xs 11).toNat
  · have hfits := record_fits hcount hindex
    rw [if_pos hindex]
    apply decodeInto_read
    rw [deref_some, ok_bind, UbxFrame.withPayload_payload, readByte_front (by omega), ok_bind,
      if_neg (Nat.not_le.mpr hindex)]
    dsimp only
    rw [ubxRxmRawxMeasurementFields_front hfits, ok_bind]
    rfl
  · rw [if_neg hindex]
    apply decodeInto_readError
    rw [deref_some, ok_bind, UbxFrame.withPayload_payload, readByte_front (by omega), ok_bind,
      if_pos (Nat.le_of_not_lt hindex)]
    rfl

end

/-- On every readable frame the two decoders agree. -/
theorem rawx_agrees {frame : Option UbxFrame} (hreadable : ∀ f ∈ frame, f.Readable)
    (header : UbxRxmRawx) (k : UInt16) (output : UbxRxmRawxMeasurement) :
    IndexAgrees .ok .indexOutOfRange (fun h : UbxRxmRawx => h.measurementCount.toNat) k.toNat
      (some output) (ubxRxmRawxDecode frame (some header))
      (ubxRxmRawxMeasurementDecode frame k (some output)) := by
  rcases @ubxRxmCountedValidate_cases 0x15 0x01 16 13 11 32 frame hreadable (by simp) (by simp)
    with ⟨r, hr, hrefuse⟩ | ⟨f, xs, more, rfl, -, hcount, haccept⟩
  · rw [ubxRxmRawxDecode, ubxRxmRawxMeasurementDecode, ubxRxmRawxValidate, hrefuse]
    exact agrees_refused hr
  · have hheader : 16 ≤ xs.length := by
      rw [hcount]
      exact Nat.le_add_right 16 _
    have hrecord := @ubxRxmRawxMeasurementDecode_reads f xs more hcount haccept k output
    refine agrees_accepted (by simp) (ubxRxmRawxDecode_reads hheader haccept header) ?_ ?_
    · intro hindex
      exact ⟨_, hrecord.trans (congrArg Except.ok (if_pos hindex))⟩
    · intro hindex
      exact hrecord.trans (congrArg Except.ok (if_neg (Nat.not_lt.mpr hindex)))

/-- An accepted frame is at most a header and 255 measurements. -/
theorem rawx_length_le {frame : UbxFrame} (hreadable : frame.Readable) {header : UbxRxmRawx}
    {output : Option UbxRxmRawx}
    (h : ubxRxmRawxDecode (some frame) (some header) = .ok (.ok, output)) :
    frame.payloadLength.toNat ≤ 8176 := by
  have hall := readable_some hreadable
  rcases @ubxRxmCountedValidate_cases 0x15 0x01 16 13 11 32 _ hall (by simp) (by simp)
    with ⟨r, hr, hrefuse⟩ | ⟨f, xs, more, hframe, hlen, hcount, -⟩
  · exact absurd h (decodeInto_not_ok hrefuse hr)
  · have hbyte := (byteAt xs 11).toNat_lt
    rw [Option.some.inj hframe, UbxFrame.withPayload_payloadLength, hlen, hcount]
    show 16 + (byteAt xs 11).toNat * 32 ≤ 8176
    omega

/-- What the header decoder makes of a message. -/
theorem RawxMessage.decode (m : RawxMessage) (more : List UInt8) (output : UbxRxmRawx) :
    ubxRxmRawxDecode (some (m.frame more)) (some output) = .ok (.ok, some m.header) := by
  have hlen : 16 ≤ m.payload.length := by
    rw [m.length_payload]
    exact Nat.le_add_right 16 _
  rw [← m.ofPayload_header]
  exact ubxRxmRawxDecode_reads (f := m.frame more) hlen (m.validate more) output

/-- What the measurement decoder makes of it. -/
theorem RawxMessage.decode_measurement (m : RawxMessage) (more : List UInt8) (k : UInt16)
    (output : UbxRxmRawxMeasurement) :
    ubxRxmRawxMeasurementDecode (some (m.frame more)) k (some output)
      = .ok (if k.toNat < m.measurements.length then
            (.ok, some (.ofPayload m.payload (16 + k.toNat * 32)))
          else (.indexOutOfRange, some output)) := by
  have hcount : (byteAt m.payload 11).toNat = m.measurements.length := by
    rw [← m.count_toNat, ← m.ofPayload_header]
    rfl
  rw [← hcount]
  refine ubxRxmRawxMeasurementDecode_reads (f := m.frame more) ?_ (m.validate more) k output
  rw [hcount, m.length_payload]

/-- **UBX-RXM-RAWX is decoded as it was sent.** Of every message the header and
each measurement are found again, and an index from the count on is out of
range. On every readable frame the two decoders agree, and a frame they accept
is at most 8176 bytes. -/
theorem rawx_lossless :
    (∀ (m : RawxMessage) (more : List UInt8),
      (∀ output, ubxRxmRawxDecode (some (m.frame more)) (some output)
        = .ok (.ok, some m.header)) ∧
      (∀ (k : UInt16) (output : UbxRxmRawxMeasurement) (h : k.toNat < m.measurements.length),
        ubxRxmRawxMeasurementDecode (some (m.frame more)) k (some output)
          = .ok (.ok, some m.measurements[k.toNat].1)) ∧
      ∀ (k : UInt16) (output : UbxRxmRawxMeasurement), m.measurements.length ≤ k.toNat →
        ubxRxmRawxMeasurementDecode (some (m.frame more)) k (some output)
          = .ok (.indexOutOfRange, some output)) ∧
    (∀ (frame : Option UbxFrame) (header : UbxRxmRawx) (k : UInt16)
        (output : UbxRxmRawxMeasurement), (∀ f ∈ frame, f.Readable) →
      IndexAgrees .ok .indexOutOfRange (fun h : UbxRxmRawx => h.measurementCount.toNat) k.toNat
        (some output) (ubxRxmRawxDecode frame (some header))
        (ubxRxmRawxMeasurementDecode frame k (some output))) ∧
    ∀ (frame : UbxFrame) (header : UbxRxmRawx) (output : Option UbxRxmRawx), frame.Readable →
      ubxRxmRawxDecode (some frame) (some header) = .ok (.ok, output) →
      frame.payloadLength.toNat ≤ 8176 := by
  refine ⟨?_, ?_, ?_⟩
  · intro m more
    refine ⟨m.decode more, ?_, ?_⟩
    · intro k output h
      rw [m.decode_measurement, if_pos h, m.ofPayload_measurement h]
    · intro k output h
      rw [m.decode_measurement, if_neg (Nat.not_lt.mpr h)]
  · intro frame header k output hreadable
    exact rawx_agrees hreadable header k output
  · intro frame header output hreadable h
    exact rawx_length_le hreadable h

/-- Two measurements: the second one, and the index behind it. -/
theorem rawx_lossless_two :
    let m : RawxMessage := ⟨0, 0, -1, 0, Vector.replicate 2 0,
      [(.ofPayload [5] 0, 7), (.ofPayload [6] 0, 8)], by simp⟩
    ubxRxmRawxMeasurementDecode (some (m.frame [])) 1 (some (.ofPayload [] 0))
      = .ok (.ok, some (.ofPayload [6] 0)) ∧
    ubxRxmRawxMeasurementDecode (some (m.frame [])) 2 (some (.ofPayload [] 0))
      = .ok (.indexOutOfRange, some (.ofPayload [] 0)) ∧
    IndexAgrees .ok .indexOutOfRange (fun h : UbxRxmRawx => h.measurementCount.toNat)
      (1 : UInt16).toNat (some (.ofPayload [] 0))
      (ubxRxmRawxDecode (some (m.frame [])) (some (.ofPayload [])))
      (ubxRxmRawxMeasurementDecode (some (m.frame [])) 1 (some (.ofPayload [] 0))) ∧
    (m.frame []).payloadLength.toNat ≤ 8176 := by
  intro m
  have hreadable : (m.frame []).Readable :=
    frameOf_readable (by rw [m.length_payload]; simp [m]) []
  have hall := readable_some hreadable
  obtain ⟨hmessage, hagrees, hlength⟩ := rawx_lossless
  obtain ⟨hheader, hbelow, habove⟩ := hmessage m []
  exact ⟨hbelow 1 _ (by simp [m]), habove 2 _ (by simp [m]), hagrees _ _ 1 _ hall,
    hlength _ _ _ hreadable (hheader (.ofPayload []))⟩

/-! ## UBX-RXM-SFRBX -/

section

variable {f : UbxFrame} {xs more : List UInt8}

/-- The header of an accepted frame. -/
theorem ubxRxmSfrbxDecode_reads (h : 8 ≤ xs.length)
    (haccept : ubxRxmSfrbxValidate (some (f.withPayload (some (xs ++ more)))) = .ok (.ok ()))
    (output : UbxRxmSfrbx) :
    ubxRxmSfrbxDecode (some (f.withPayload (some (xs ++ more)))) (some output)
      = .ok (.ok, some (.ofPayload xs)) := by
  rw [ubxRxmSfrbxDecode, haccept]
  apply decodeInto_read
  rw [deref_some, ok_bind, UbxFrame.withPayload_payload, ubxRxmSfrbxFields_front (by omega),
    ok_bind]
  rfl

/-- The words of an accepted frame. -/
theorem ubxRxmSfrbxWordDecode_reads (hcount : xs.length = 8 + (byteAt xs 4).toNat * 4)
    (haccept : ubxRxmSfrbxValidate (some (f.withPayload (some (xs ++ more)))) = .ok (.ok ()))
    (k : UInt16) (output : UInt32) :
    ubxRxmSfrbxWordDecode (some (f.withPayload (some (xs ++ more)))) k (some output)
      = .ok (if k.toNat < (byteAt xs 4).toNat then (.ok, some (u32At xs (8 + k.toNat * 4)))
          else (.indexOutOfRange, some output)) := by
  rw [ubxRxmSfrbxWordDecode, haccept]
  by_cases hindex : k.toNat < (byteAt xs 4).toNat
  · have hfits := record_fits hcount hindex
    rw [if_pos hindex]
    apply decodeInto_read
    rw [deref_some, ok_bind, UbxFrame.withPayload_payload, readByte_front (by omega), ok_bind,
      if_neg (Nat.not_le.mpr hindex)]
    dsimp only
    rw [readU32_front hfits, ok_bind]
    rfl
  · rw [if_neg hindex]
    apply decodeInto_readError
    rw [deref_some, ok_bind, UbxFrame.withPayload_payload, readByte_front (by omega), ok_bind,
      if_pos (Nat.le_of_not_lt hindex)]
    rfl

end

/-- The words of a payload that starts with the header. -/
def sfrbxWords (xs : List UInt8) : List UInt32 :=
  (List.range (byteAt xs 4).toNat).map fun k => u32At xs (8 + k * 4)

/-- The words are what stands behind the header. -/
theorem sfrbxWords_bytes {xs : List UInt8} (hcount : xs.length = 8 + (byteAt xs 4).toNat * 4) :
    (sfrbxWords xs).flatMap wireU32 = xs.drop 8 := by
  have hwidth : u32Layout.width = 4 := rfl
  have hbehind : (xs.drop 8).length = (byteAt xs 4).toNat * 4 := by
    rw [List.length_drop]
    omega
  have hwindows := @Layout.records_windows _ _ u32Layout (xs.drop 8) (byteAt xs 4).toNat
    (by rw [hwidth, hbehind])
  rw [hwidth, ← hbehind, List.take_length, u32Layout_records] at hwindows
  rw [← hwindows, sfrbxWords]
  congr 1
  apply List.map_congr_left
  intro k _
  show u32At xs (8 + k * 4) = u32At ((xs.drop 8).drop (k * 4)) 0
  rw [List.drop_drop, u32At_drop, Nat.add_zero]

/-- **UBX-RXM-SFRBX is decoded as it was sent.** Where the header decoder returns
OK, the words below its count are decoded, and written one behind the other they
are the payload behind the header; any other index is out of range. Where it
fails, the word decoder fails in the same way. -/
theorem sfrbx_lossless (frame : Option UbxFrame) (hreadable : ∀ f ∈ frame, f.Readable)
    (header : UbxRxmSfrbx) :
    (∀ h, ubxRxmSfrbxDecode frame (some header) = .ok (.ok, some h) →
      ∃ (f : UbxFrame) (cells : List UInt8) (words : List UInt32), frame = some f ∧
        f.payload = some cells ∧ words.length = h.wordCount.toNat ∧
        (∀ (k : UInt16) (output : UInt32) (hk : k.toNat < words.length),
          ubxRxmSfrbxWordDecode frame k (some output) = .ok (.ok, some words[k.toNat])) ∧
        (∀ (k : UInt16) (output : UInt32), words.length ≤ k.toNat →
          ubxRxmSfrbxWordDecode frame k (some output) = .ok (.indexOutOfRange, some output)) ∧
        words.flatMap wireU32 = (cells.take f.payloadLength.toNat).drop 8) ∧
    ∀ r h, ubxRxmSfrbxDecode frame (some header) = .ok (r, h) → r ≠ .ok →
      ∀ (k : UInt16) (output : UInt32),
        ubxRxmSfrbxWordDecode frame k (some output) = .ok (r, some output) := by
  rcases @ubxRxmCountedValidate_cases 0x13 0x02 8 6 4 4 frame hreadable (by simp) (by simp)
    with ⟨r, hr, hrefuse⟩ | ⟨f, xs, more, rfl, hlen, hcount, haccept⟩
  · constructor
    · intro h hdecode
      exact absurd hdecode (decodeInto_not_ok hrefuse hr)
    · intro r' h hdecode _ k output
      rw [ubxRxmSfrbxDecode, ubxRxmSfrbxValidate, hrefuse, decodeInto_error] at hdecode
      cases hdecode
      rw [ubxRxmSfrbxWordDecode, ubxRxmSfrbxValidate, hrefuse, decodeInto_error]
  · have hheader : 8 ≤ xs.length := by
      rw [hcount]
      exact Nat.le_add_right 8 _
    have hcells : (xs ++ more).take f.payloadLength.toNat = xs := by
      rw [hlen, List.take_left]
    rw [ubxRxmSfrbxDecode_reads hheader haccept header]
    constructor
    · intro h hdecode
      cases hdecode
      have hwords : (sfrbxWords xs).length = (byteAt xs 4).toNat := by
        rw [sfrbxWords, List.length_map, List.length_range]
      refine ⟨_, _, sfrbxWords xs, rfl, rfl, hwords, ?_, ?_, ?_⟩
      · intro k output hk
        rw [ubxRxmSfrbxWordDecode_reads hcount haccept, if_pos (hwords ▸ hk)]
        congr 3
        simp [sfrbxWords]
      · intro k output hk
        rw [ubxRxmSfrbxWordDecode_reads hcount haccept, if_neg (Nat.not_lt.mpr (hwords ▸ hk))]
      · rw [sfrbxWords_bytes hcount, UbxFrame.withPayload_payloadLength, hcells]
    · intro r h hdecode hr
      cases hdecode
      exact absurd rfl hr

/-- Two words. -/
theorem sfrbx_lossless_two :
    let frame : UbxFrame :=
      ⟨0x02, 0x13, 16, some [0, 5, 0, 0, 2, 0, 2, 0, 0xFF, 1, 2, 0x80, 3, 4, 5, 6]⟩
    ∃ (cells : List UInt8) (words : List UInt32), frame.payload = some cells ∧
      words.length = 2 ∧
      (∀ (k : UInt16) (output : UInt32) (hk : k.toNat < words.length),
        ubxRxmSfrbxWordDecode (some frame) k (some output) = .ok (.ok, some words[k.toNat])) ∧
      words.flatMap wireU32 = (cells.take 16).drop 8 := by
  intro frame
  have hreadable : ∀ f ∈ some frame, f.Readable := by
    intro f hf cells hcells
    cases hf
    cases hcells
    exact Nat.le_refl 16
  obtain ⟨hok, -⟩ := sfrbx_lossless (some frame) hreadable (.ofPayload [])
  obtain ⟨f, cells, words, hf, hpayload, hlength, hbelow, -, hwords⟩ :=
    hok ⟨0, 5, 0, 0, 2, 0, 2⟩ (by decide)
  cases hf
  exact ⟨cells, words, hpayload, hlength, hbelow, hwords⟩

end Ubx.Decode
