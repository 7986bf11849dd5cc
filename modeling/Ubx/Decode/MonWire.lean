import Ubx.Decode.Mon
import Ubx.Wire

/-!
# UBX-MON-COMMS and UBX-MON-VER on the wire

The ports of UBX-MON-COMMS are records behind a header that counts them; a
`CommsMessage` is what a receiver can send, and `comms_lossless` says that the
two decoders find all of it again, each port from its own record only.
UBX-MON-VER has no count: there are as many extension strings as the length has
room for, and `ver_tiles` says that the strings are the payload.

The arrays of the outputs are overwritten in full, so that nothing a caller had
in them shows in a decoded value.
-/

namespace Ubx.Decode

open Lib Ubx.Stream

/-! ## UBX-MON-COMMS -/

/-- A readable frame is refused, or its payload is the header and the records counted. -/
theorem ubxMonCountedValidate_cases {messageId : UInt8} {headerLength : UInt16} {recordLength : Nat}
    {frame : Option UbxFrame} (hreadable : ∀ f ∈ frame, f.Readable)
    (hheader : 2 ≤ headerLength.toNat) :
    (∃ r, r ≠ .ok ∧
        ubxMonCountedValidate messageId headerLength recordLength frame = .ok (.error r)) ∨
      ∃ (f : UbxFrame) (xs more : List UInt8), frame = some (f.withPayload (some (xs ++ more))) ∧
        f.payloadLength.toNat = xs.length ∧
        xs.length = headerLength.toNat + (byteAt xs 1).toNat * recordLength ∧
        ubxMonCountedValidate messageId headerLength recordLength frame
          = .ok (.ok (byteAt xs 1)) := by
  cases frame with
  | none => exact Or.inl ⟨.nullArgument, by simp, rfl⟩
  | some f =>
    cases hpayload : f.payload with
    | none => exact Or.inl ⟨.nullArgument, by simp, ubxMonCountedValidate_null hpayload⟩
    | some cells =>
      obtain ⟨hsplit, hlen⟩ := (hreadable f rfl).split hpayload
      rw [hsplit]
      generalize cells.take f.payloadLength.toNat = xs at hlen ⊢
      rw [ubxMonCountedValidate_front hlen hheader]
      -- the checks in the order of the C function
      split
      next => exact Or.inl ⟨.wrongMessage, by simp, rfl⟩
      next =>
        split
        next => exact Or.inl ⟨.wrongLength, by simp, rfl⟩
        next =>
          split
          next => exact Or.inl ⟨.unsupportedVersion, by simp, rfl⟩
          next =>
            split
            next => exact Or.inl ⟨.malformedPayload, by simp, rfl⟩
            next hexpected =>
              exact Or.inr ⟨f, xs, _, rfl, hlen, hlen ▸ not_not.mp hexpected, rfl⟩

/-- The header that the first bytes stand for. -/
def UbxMonComms.ofPayload (xs : List UInt8) : UbxMonComms where
  version := byteAt xs 0
  portCount := byteAt xs 1
  txErrors := byteAt xs 2
  protocolIds := bytesAt xs 4 4

/-- The header of UBX-MON-COMMS in wire order; byte 3 is reserved. -/
def UbxMonComms.fields (comms : UbxMonComms) (reserved : UInt8) : List (List UInt8) :=
  [wireU8 comms.version, wireU8 comms.portCount, wireU8 comms.txErrors, wireU8 reserved,
    comms.protocolIds.toList]

/-- The widths of its fields. -/
def UbxMonComms.widths : List Nat := [1, 1, 1, 1, 4]

theorem comms_fields_widths (header : UbxMonComms × UInt8) :
    (header.1.fields header.2).map List.length = UbxMonComms.widths := by
  simp [UbxMonComms.fields, UbxMonComms.widths]

theorem comms_fields_inj (header header' : UbxMonComms × UInt8)
    (h : header.1.fields header.2 = header'.1.fields header'.2) : header = header' := by
  obtain ⟨comms, reserved⟩ := header
  obtain ⟨comms', reserved'⟩ := header'
  cases comms
  cases comms'
  simp only [UbxMonComms.fields, List.cons.injEq, wireU8_inj, Vector.toList_inj] at h
  simp only [h]

theorem comms_fields_ofBytes (xs : List UInt8) (h : 8 ≤ xs.length) :
    (UbxMonComms.ofPayload xs).fields (byteAt xs 3) = UbxMonComms.widths.splitLengths xs := by
  simp (disch := omega) only [UbxMonComms.fields, UbxMonComms.widths, UbxMonComms.ofPayload,
    List.splitLengths_cons, List.splitLengths_nil, List.drop_drop, Nat.reduceAdd, wireU8_at,
    bytesAt_toList, List.drop_zero]

/-- The layout of the header. -/
def commsLayout : Layout (UbxMonComms × UInt8) UInt8 where
  widths := UbxMonComms.widths
  fields header := header.1.fields header.2
  ofBytes xs := (.ofPayload xs, byteAt xs 3)
  widths_fields := comms_fields_widths
  fields_inj := comms_fields_inj
  fields_ofBytes := comms_fields_ofBytes

theorem commsLayout_fst (xs : List UInt8) : (commsLayout.ofBytes xs).1 = .ofPayload xs := rfl

/-- The port at an offset of the payload. -/
def UbxMonCommsPort.readAt (xs : List UInt8) (port : Nat) : UbxMonCommsPort where
  portId := u16At xs port
  txPending := u16At xs (port + 2)
  txBytes := u32At xs (port + 4)
  txUsage := byteAt xs (port + 8)
  txPeakUsage := byteAt xs (port + 9)
  rxPending := u16At xs (port + 10)
  rxBytes := u32At xs (port + 12)
  rxUsage := byteAt xs (port + 16)
  rxPeakUsage := byteAt xs (port + 17)
  overrunErrorCount := u16At xs (port + 18)
  messageCount := wordsAt xs (port + 20) 4
  skippedBytes := u32At xs (port + 36)

/-- The four counts take the place of all that was in the array. -/
theorem UbxMonCommsPort.ofPayload_readAt (xs : List UInt8) (port : Nat) (output : UbxMonCommsPort) :
    UbxMonCommsPort.ofPayload xs port output = .readAt xs port := by
  have hcounts : overwrite output.messageCount
      ((List.range 4).map fun protocolIndex => u16At xs (port + (20 + protocolIndex * 2)))
      = wordsAt xs (port + 20) 4 := by
    apply Vector.toList_inj.mp
    rw [overwrite_toList _ (by rw [List.length_map, List.length_range]), wordsAt_toList]
    simp only [Nat.add_assoc]
  rw [UbxMonCommsPort.ofPayload, hcounts]
  rfl

/-- A port in wire order; bytes 28 to 35 are reserved. -/
def UbxMonCommsPort.fields (p : UbxMonCommsPort) (reserved : Vector UInt8 8) : List (List UInt8) :=
  [wireU16 p.portId, wireU16 p.txPending, wireU32 p.txBytes, wireU8 p.txUsage, wireU8 p.txPeakUsage,
    wireU16 p.rxPending, wireU32 p.rxBytes, wireU8 p.rxUsage, wireU8 p.rxPeakUsage,
    wireU16 p.overrunErrorCount, p.messageCount.toList.flatMap wireU16, reserved.toList,
    wireU32 p.skippedBytes]

/-- The widths of its fields. -/
def UbxMonCommsPort.widths : List Nat := [2, 2, 4, 1, 1, 2, 4, 1, 1, 2, 8, 8, 4]

theorem port_fields_widths (record : UbxMonCommsPort × Vector UInt8 8) :
    (record.1.fields record.2).map List.length = UbxMonCommsPort.widths := by
  simp only [UbxMonCommsPort.fields, UbxMonCommsPort.widths, List.map_cons, List.map_nil,
    length_words, length_wireU8, length_wireU16, length_wireU32, Vector.length_toList,
    Nat.reduceMul]

theorem port_fields_inj (record record' : UbxMonCommsPort × Vector UInt8 8)
    (h : record.1.fields record.2 = record'.1.fields record'.2) : record = record' := by
  obtain ⟨p, reserved⟩ := record
  obtain ⟨p', reserved'⟩ := record'
  cases p
  cases p'
  simp only [UbxMonCommsPort.fields, List.cons.injEq, wireU8_inj, wireU16_inj, wireU32_inj,
    words_inj, Vector.toList_inj] at h
  simp only [h]

theorem port_fields_ofBytes (xs : List UInt8) (h : 40 ≤ xs.length) :
    (UbxMonCommsPort.readAt xs 0).fields (bytesAt xs 28 8)
      = UbxMonCommsPort.widths.splitLengths xs := by
  simp (disch := omega) only [UbxMonCommsPort.fields, UbxMonCommsPort.widths,
    UbxMonCommsPort.readAt, List.splitLengths_cons, List.splitLengths_nil, List.drop_drop,
    Nat.reduceAdd, Nat.reduceMul, wireU8_at, wireU16_at, wireU32_at, wordsAt_bytes,
    bytesAt_toList, List.drop_zero]

/-- The layout of a port. -/
def portLayout : Layout (UbxMonCommsPort × Vector UInt8 8) UInt8 where
  widths := UbxMonCommsPort.widths
  fields record := record.1.fields record.2
  ofBytes xs := (.readAt xs 0, bytesAt xs 28 8)
  widths_fields := port_fields_widths
  fields_inj := port_fields_inj
  fields_ofBytes := port_fields_ofBytes

/-- The port at an offset is the first port behind it. -/
theorem portLayout_fst (xs : List UInt8) (port : Nat) :
    (portLayout.ofBytes (xs.drop port)).1 = .readAt xs port := by
  have hcounts : wordsAt (xs.drop port) 20 4 = wordsAt xs (port + 20) 4 := by
    apply Vector.toList_inj.mp
    simp only [wordsAt_toList, u16At_drop, Nat.add_assoc]
  show UbxMonCommsPort.readAt (xs.drop port) 0 = _
  simp only [UbxMonCommsPort.readAt, byteAt_drop, u16At_drop, u32At_drop, Nat.zero_add,
    Nat.add_zero, hcounts]

section

variable {f : UbxFrame} {xs more : List UInt8}

/-- The header of an accepted frame. -/
theorem ubxMonCommsDecode_reads (h : 8 ≤ xs.length)
    (haccept : ubxMonCommsValidate (some (f.withPayload (some (xs ++ more))))
      = .ok (.ok (byteAt xs 1))) (output : UbxMonComms) :
    ubxMonCommsDecode (some (f.withPayload (some (xs ++ more)))) (some output)
      = .ok (.ok, some (.ofPayload xs)) := by
  have hids : overwrite output.protocolIds ((xs.drop 4).take 4) = bytesAt xs 4 4 := by
    apply Vector.toList_inj.mp
    rw [← bytesAt_toList (by omega), overwrite_toList _ Vector.length_toList]
  rw [ubxMonCommsDecode, haccept]
  apply decodeInto_read
  rw [deref_some, ok_bind, UbxFrame.withPayload_payload, readByte_front (by omega), ok_bind,
    readByte_front (by omega), ok_bind, copyInto_front (by omega) (Nat.le_refl 4), ok_bind, hids]
  rfl

/-- The ports of an accepted frame. -/
theorem ubxMonCommsPortDecode_reads (hcount : xs.length = 8 + (byteAt xs 1).toNat * 40)
    (haccept : ubxMonCommsValidate (some (f.withPayload (some (xs ++ more))))
      = .ok (.ok (byteAt xs 1))) (k : UInt8) (output : UbxMonCommsPort) :
    ubxMonCommsPortDecode (some (f.withPayload (some (xs ++ more)))) k (some output)
      = .ok (if k.toNat < (byteAt xs 1).toNat then (.ok, some (.readAt xs (8 + k.toNat * 40)))
          else (.indexOutOfRange, some output)) := by
  rw [ubxMonCommsPortDecode, haccept]
  by_cases hindex : k.toNat < (byteAt xs 1).toNat
  · have hfits := record_fits hcount hindex
    rw [if_pos hindex]
    apply decodeInto_read
    rw [if_neg (UInt8.not_le.mpr (UInt8.lt_iff_toNat_lt.mpr hindex))]
    show (deref _ >>= _) = _
    rw [deref_some, ok_bind, UbxFrame.withPayload_payload]
    dsimp only
    rw [ubxMonCommsPortFields_front hfits, ok_bind, UbxMonCommsPort.ofPayload_readAt]
    rfl
  · rw [if_neg hindex]
    apply decodeInto_readError
    rw [if_pos (UInt8.le_iff_toNat_le.mpr (Nat.le_of_not_lt hindex))]
    rfl

end

/-- On every readable frame the two decoders agree. -/
theorem comms_agrees {frame : Option UbxFrame} (hreadable : ∀ f ∈ frame, f.Readable)
    (header : UbxMonComms) (k : UInt8) (output : UbxMonCommsPort) :
    IndexAgrees .ok .indexOutOfRange (fun h : UbxMonComms => h.portCount.toNat) k.toNat
      (some output) (ubxMonCommsDecode frame (some header))
      (ubxMonCommsPortDecode frame k (some output)) := by
  rcases @ubxMonCountedValidate_cases 0x36 8 40 frame hreadable (by simp)
    with ⟨r, hr, hrefuse⟩ | ⟨f, xs, more, rfl, -, hcount, haccept⟩
  · rw [ubxMonCommsDecode, ubxMonCommsPortDecode, ubxMonCommsValidate, hrefuse]
    exact agrees_refused hr
  · have hheader : 8 ≤ xs.length := by
      rw [hcount]
      exact Nat.le_add_right 8 _
    have hrecord := @ubxMonCommsPortDecode_reads f xs more hcount haccept k output
    refine agrees_accepted (by simp) (ubxMonCommsDecode_reads hheader haccept header) ?_ ?_
    · intro hindex
      exact ⟨_, hrecord.trans (congrArg Except.ok (if_pos hindex))⟩
    · intro hindex
      exact hrecord.trans (congrArg Except.ok (if_neg (Nat.not_lt.mpr hindex)))

/-- A port below the count is decoded from the bytes of its record alone. -/
theorem comms_port_window {frame : UbxFrame} {cells : List UInt8} (hreadable : frame.Readable)
    (hpayload : frame.payload = some cells) {header h : UbxMonComms}
    (haccepted : ubxMonCommsDecode (some frame) (some header) = .ok (.ok, some h)) {k : UInt8}
    (hk : k.toNat < h.portCount.toNat) (output : UbxMonCommsPort) :
    ubxMonCommsPortDecode (some frame) k (some output)
      = .ok (.ok, some (portLayout.ofBytes ((cells.drop (8 + k.toNat * 40)).take 40)).1) := by
  have hall := readable_some hreadable
  rcases @ubxMonCountedValidate_cases 0x36 8 40 _ hall (by simp)
    with ⟨r, hr, hrefuse⟩ | ⟨f, xs, more, hframe, -, hcount, haccept⟩
  · exact absurd haccepted (decodeInto_not_ok hrefuse hr)
  · cases hframe
    cases hpayload
    have hheader : 8 ≤ xs.length := by
      rw [hcount]
      exact Nat.le_add_right 8 _
    rw [ubxMonCommsDecode_reads hheader haccept] at haccepted
    cases haccepted
    have hfits : 8 + k.toNat * 40 + 40 ≤ xs.length := record_fits hcount hk
    have hwindow := @Layout.ofBytes_take _ _ portLayout (xs.drop (8 + k.toNat * 40))
      (by rw [List.length_drop]; show 40 ≤ _; omega)
    have hwidth : portLayout.width = 40 := rfl
    rw [hwidth] at hwindow
    rw [field_front hfits, hwindow, portLayout_fst]
    exact (ubxMonCommsPortDecode_reads hcount haccept k output).trans
      (congrArg Except.ok (if_pos hk))

/-! ### Messages -/

/-- A message of UBX-MON-COMMS: what the receiver puts in it. -/
structure CommsMessage where
  txErrors : UInt8
  reserved : UInt8
  protocolIds : Vector UInt8 4
  /-- the ports, each with its reserved bytes -/
  ports : List (UbxMonCommsPort × Vector UInt8 8)
  count_le : ports.length ≤ 255

namespace CommsMessage

/-- The header, with version 0 and the count. -/
def header (m : CommsMessage) : UbxMonComms where
  version := 0
  portCount := UInt8.ofNat m.ports.length
  txErrors := m.txErrors
  protocolIds := m.protocolIds

/-- The message on the wire. -/
def payload (m : CommsMessage) : List UInt8 :=
  commsLayout.bytes (m.header, m.reserved) ++ portLayout.records m.ports

/-- The message as a received frame. -/
def frame (m : CommsMessage) (more : List UInt8) : UbxFrame := frameOf 0x0A 0x36 m.payload more

theorem length_payload (m : CommsMessage) : m.payload.length = 8 + m.ports.length * 40 := by
  rw [payload, List.length_append, Layout.length_bytes, Layout.length_records]
  rfl

theorem length_le (m : CommsMessage) : m.payload.length ≤ 65535 := by
  have hle := m.count_le
  rw [m.length_payload]
  omega

/-- The header is found again. -/
theorem ofPayload_header (m : CommsMessage) : UbxMonComms.ofPayload m.payload = m.header := by
  have hback := commsLayout.ofBytes_bytes (m.header, m.reserved) (portLayout.records m.ports)
  rw [payload, ← commsLayout_fst, hback]

theorem count_toNat (m : CommsMessage) : (byteAt m.payload 1).toNat = m.ports.length := by
  have hle := m.count_le
  have hbyte : byteAt m.payload 1 = UInt8.ofNat m.ports.length :=
    congrArg UbxMonComms.portCount m.ofPayload_header
  rw [hbyte, UInt8.toNat_ofNat']
  omega

/-- A port is found again at its place. -/
theorem readAt_port (m : CommsMessage) {k : Nat} (h : k < m.ports.length) :
    UbxMonCommsPort.readAt m.payload (8 + k * 40) = m.ports[k].1 := by
  have hheader : (commsLayout.bytes (m.header, m.reserved)).length = 8 := commsLayout.length_bytes _
  have hrecord := portLayout.ofBytes_behind hheader h
  have hwidth : portLayout.width = 40 := rfl
  rw [hwidth] at hrecord
  rw [payload, ← portLayout_fst, hrecord]

/-- The validator accepts the message. -/
theorem validate (m : CommsMessage) (more : List UInt8) :
    ubxMonCommsValidate (some (m.frame more)) = .ok (.ok (byteAt m.payload 1)) := by
  have hlen : (m.frame more).payloadLength.toNat = m.payload.length :=
    frameOf_length m.length_le more
  have hversion : byteAt m.payload 0 = 0 := congrArg UbxMonComms.version m.ofPayload_header
  have hshort : ¬ (m.frame more).payloadLength < 8 := by
    rw [UInt16.not_lt, UInt16.le_iff_toNat_le, hlen, m.length_payload]
    exact Nat.le_add_right 8 _
  have hmessage : ¬((m.frame more).messageClass ≠ 0x0A ∨ (m.frame more).messageId ≠ 0x36) :=
    right_message rfl rfl
  have hexpected : ¬ (m.frame more).payloadLength.toNat
      ≠ UInt16.toNat 8 + (byteAt m.payload 1).toNat * 40 := by
    rw [hlen, m.count_toNat, m.length_payload]
    exact not_not.mpr rfl
  have hfront := @ubxMonCountedValidate_front (m.frame more) m.payload 0x36 8 40 hlen (by simp) more
  rw [if_neg hmessage, if_neg hshort, if_neg (not_not.mpr hversion), if_neg hexpected] at hfront
  exact hfront

theorem decode (m : CommsMessage) (more : List UInt8) (output : UbxMonComms) :
    ubxMonCommsDecode (some (m.frame more)) (some output) = .ok (.ok, some m.header) := by
  have hlen : 8 ≤ m.payload.length := by
    rw [m.length_payload]
    exact Nat.le_add_right 8 _
  rw [← m.ofPayload_header]
  exact ubxMonCommsDecode_reads (f := m.frame more) hlen (m.validate more) output

theorem decode_port (m : CommsMessage) (more : List UInt8) (k : UInt8) (output : UbxMonCommsPort) :
    ubxMonCommsPortDecode (some (m.frame more)) k (some output)
      = .ok (if k.toNat < m.ports.length then (.ok, some (.readAt m.payload (8 + k.toNat * 40)))
          else (.indexOutOfRange, some output)) := by
  have hcount := m.count_toNat
  rw [← hcount]
  refine ubxMonCommsPortDecode_reads (f := m.frame more) ?_ (m.validate more) k output
  rw [hcount, m.length_payload]

end CommsMessage

/-- **UBX-MON-COMMS is decoded as it was sent.** Of every message the header and
each port are found again. A port depends on the bytes of its record only: two
accepted frames with the same bytes there, and the port below both counts, give
the same port. On every readable frame the two decoders agree. -/
theorem comms_lossless :
    (∀ (m : CommsMessage) (more : List UInt8),
      (∀ output, ubxMonCommsDecode (some (m.frame more)) (some output)
        = .ok (.ok, some m.header)) ∧
      m.header.portCount.toNat = m.ports.length ∧
      ∀ (k : UInt8) (output : UbxMonCommsPort) (h : k.toNat < m.ports.length),
        ubxMonCommsPortDecode (some (m.frame more)) k (some output)
          = .ok (.ok, some m.ports[k.toNat].1)) ∧
    (∀ (frame frame' : UbxFrame) (cells cells' : List UInt8) (header h h' : UbxMonComms)
        (k : UInt8) (output output' : UbxMonCommsPort), frame.Readable → frame'.Readable →
      frame.payload = some cells → frame'.payload = some cells' →
      ubxMonCommsDecode (some frame) (some header) = .ok (.ok, some h) →
      ubxMonCommsDecode (some frame') (some header) = .ok (.ok, some h') →
      k.toNat < h.portCount.toNat → k.toNat < h'.portCount.toNat →
      (cells.drop (8 + k.toNat * 40)).take 40 = (cells'.drop (8 + k.toNat * 40)).take 40 →
      ∃ port, ubxMonCommsPortDecode (some frame) k (some output) = .ok (.ok, some port) ∧
        ubxMonCommsPortDecode (some frame') k (some output') = .ok (.ok, some port)) ∧
    ∀ (frame : Option UbxFrame) (header : UbxMonComms) (k : UInt8) (output : UbxMonCommsPort),
      (∀ f ∈ frame, f.Readable) →
      IndexAgrees .ok .indexOutOfRange (fun h : UbxMonComms => h.portCount.toNat) k.toNat
        (some output) (ubxMonCommsDecode frame (some header))
        (ubxMonCommsPortDecode frame k (some output)) := by
  refine ⟨?_, ?_, ?_⟩
  · intro m more
    refine ⟨m.decode more, ?_, ?_⟩
    · rw [← m.ofPayload_header]
      exact m.count_toNat
    · intro k output h
      rw [m.decode_port, if_pos h, m.readAt_port h]
  · intro frame frame' cells cells' header h h' k output output' hreadable hreadable' hpayload
      hpayload' haccepted haccepted' hk hk' hwindow
    refine ⟨_, comms_port_window hreadable hpayload haccepted hk output, ?_⟩
    rw [hwindow]
    exact comms_port_window hreadable' hpayload' haccepted' hk' output'
  · intro frame header k output hreadable
    exact comms_agrees hreadable header k output

/-- Two ports, and the second one also in a frame with another header and another
first port. -/
theorem comms_lossless_two :
    let m : CommsMessage := ⟨1, 0, Vector.replicate 4 0,
      [(.readAt [5] 0, Vector.replicate 8 0), (.readAt [6] 0, Vector.replicate 8 0)], by simp⟩
    let m' : CommsMessage := ⟨2, 0, Vector.replicate 4 0,
      [(.readAt [4] 0, Vector.replicate 8 9), (.readAt [6] 0, Vector.replicate 8 0)], by simp⟩
    ubxMonCommsPortDecode (some (m.frame [])) 1 (some (.readAt [] 0))
      = .ok (.ok, some (.readAt [6] 0)) ∧
    (∃ port, ubxMonCommsPortDecode (some (m.frame [])) 1 (some (.readAt [] 0))
        = .ok (.ok, some port) ∧
      ubxMonCommsPortDecode (some (m'.frame [])) 1 (some (.readAt [] 0)) = .ok (.ok, some port)) ∧
    IndexAgrees .ok .indexOutOfRange (fun h : UbxMonComms => h.portCount.toNat) (2 : UInt8).toNat
      (some (.readAt [] 0)) (ubxMonCommsDecode (some (m.frame [])) (some (.ofPayload [])))
      (ubxMonCommsPortDecode (some (m.frame [])) 2 (some (.readAt [] 0))) := by
  intro m m'
  have hreadable : (m.frame []).Readable := frameOf_readable m.length_le []
  have hreadable' : (m'.frame []).Readable := frameOf_readable m'.length_le []
  have hall := readable_some hreadable
  obtain ⟨hmessage, hwindow, hagrees⟩ := comms_lossless
  obtain ⟨hheader, hcount, hport⟩ := hmessage m []
  obtain ⟨hheader', hcount', -⟩ := hmessage m' []
  refine ⟨hport 1 _ (by simp [m]), ?_, hagrees _ _ 2 _ hall⟩
  refine hwindow (m.frame []) (m'.frame []) _ _ (.ofPayload []) m.header m'.header 1 _ _ hreadable
    hreadable' rfl rfl (hheader _) (hheader' _) ?_ ?_ (by decide)
  · rw [hcount]
    simp [m]
  · rw [hcount']
    simp [m']

/-! ## UBX-MON-VER -/

section

variable {frame : UbxFrame} {xs more : List UInt8}

/-- The length alone says whether a UBX-MON-VER frame is accepted, and how many
extensions it has. -/
theorem ubxMonVerValidate_length (hclass : frame.messageClass = 0x0A) (hid : frame.messageId = 0x04)
    (hlen : frame.payloadLength.toNat = xs.length) :
    (∃ count : UInt16, xs.length = 40 + count.toNat * 30 ∧
        ubxMonVerValidate (some (frame.withPayload (some (xs ++ more)))) = .ok (.ok count)) ∨
      ((¬ ∃ n, xs.length = 40 + 30 * n) ∧ ∃ r, r ≠ .ok ∧
        ubxMonVerValidate (some (frame.withPayload (some (xs ++ more)))) = .ok (.error r)) := by
  have hmessage : ¬(frame.messageClass ≠ 0x0A ∨ frame.messageId ≠ 0x04) :=
    right_message hclass hid
  have hfront := @ubxMonVerValidate_front frame xs
  simp only [if_neg hmessage] at hfront
  rw [hfront more]
  have hfront' := hfront []
  rw [List.append_nil] at hfront'
  by_cases hbase : frame.payloadLength < 40
  · have hshort : frame.payloadLength.toNat < 40 := UInt16.lt_iff_toNat_lt.mp hbase
    rw [if_pos hbase]
    refine Or.inr ⟨?_, .wrongLength, by simp, rfl⟩
    rintro ⟨n, hn⟩
    omega
  · rw [if_neg hbase] at hfront' ⊢
    have hlong : 40 ≤ frame.payloadLength.toNat := UInt16.not_lt.mp hbase
    have hsub : (frame.payloadLength - 40).toNat = frame.payloadLength.toNat - 40 :=
      UInt16.toNat_sub_of_le _ _ (UInt16.not_lt.mp hbase)
    by_cases hmod : (frame.payloadLength - 40) % 30 ≠ 0
    · rw [if_pos hmod]
      refine Or.inr ⟨?_, .malformedPayload, by simp, rfl⟩
      rintro ⟨n, hn⟩
      apply hmod
      apply UInt16.toNat_inj.mp
      rw [UInt16.toNat_mod, hsub, hlen, hn]
      show (40 + 30 * n - 40) % 30 = 0
      omega
    · rw [if_neg hmod] at hfront' ⊢
      exact Or.inl ⟨_, ubxMonVerValidate_count hlen hfront', rfl⟩

/-- The caller's array does not show behind a string that fills it. -/
theorem string_full {n : Nat} (destination destination' : Vector UInt8 (n + 1)) {w : List UInt8}
    (hw : w.length = n) : overwrite destination (w ++ [0]) = overwrite destination' (w ++ [0]) := by
  have hlen : (w ++ [(0 : UInt8)]).length = n + 1 := by
    rw [List.length_append, hw, List.length_singleton]
  apply Vector.toList_inj.mp
  rw [overwrite_toList _ hlen, overwrite_toList _ hlen]

/-- An array that a string of its length less one was copied to. -/
theorem string_array {n : Nat} (destination : Vector UInt8 (n + 1)) {w : List UInt8}
    (hw : w.length = n) :
    (overwrite destination (w ++ [0])).toList.take n = w ∧
      (overwrite destination (w ++ [0]))[n] = 0 := by
  have hlen : (w ++ [(0 : UInt8)]).length = n + 1 := by
    rw [List.length_append, hw, List.length_singleton]
  have hall := overwrite_toList destination hlen
  constructor
  · rw [hall, List.take_left' hw]
  · rw [getElem_overwrite, List.getElem?_append_right (Nat.le_of_eq hw), hw, Nat.sub_self]
    rfl

/-- The strings of an accepted frame. -/
theorem ubxMonVerDecode_reads {count : UInt16} (hlen : 40 ≤ xs.length)
    (haccept : ubxMonVerValidate (some (frame.withPayload (some (xs ++ more)))) = .ok (.ok count))
    (output : UbxMonVer) :
    ubxMonVerDecode (some (frame.withPayload (some (xs ++ more)))) (some output)
      = .ok (.ok, some ⟨overwrite output.softwareVersion (xs.take 30 ++ [0]),
          overwrite output.hardwareVersion ((xs.drop 30).take 10 ++ [0]), count⟩) := by
  rw [ubxMonVerDecode, haccept]
  apply decodeInto_read
  rw [deref_some, ok_bind, UbxFrame.withPayload_payload,
    ubxMonCopyString_front (by omega) (by omega), ok_bind,
    ubxMonCopyString_front (by omega) (by omega), ok_bind]
  rfl

/-- The extensions of an accepted frame. -/
theorem ubxMonVerExtensionDecode_reads {count : UInt16} (hcount : xs.length = 40 + count.toNat * 30)
    (haccept : ubxMonVerValidate (some (frame.withPayload (some (xs ++ more)))) = .ok (.ok count))
    (k : UInt16) (output : Vector UInt8 31) :
    ubxMonVerExtensionDecode (some (frame.withPayload (some (xs ++ more)))) k (some output)
      = .ok (if k.toNat < count.toNat then
            (.ok, some (overwrite output ((xs.drop (40 + k.toNat * 30)).take 30 ++ [0])))
          else (.indexOutOfRange, some output)) := by
  rw [ubxMonVerExtensionDecode, haccept]
  by_cases hindex : k.toNat < count.toNat
  · have hfits := record_fits hcount hindex
    rw [if_pos hindex]
    apply decodeInto_read
    rw [if_neg (UInt16.not_le.mpr (UInt16.lt_iff_toNat_lt.mpr hindex))]
    show (deref _ >>= _) = _
    rw [deref_some, ok_bind, UbxFrame.withPayload_payload]
    dsimp only
    rw [ubxMonCopyString_front hfits (by omega), ok_bind]
    rfl
  · rw [if_neg hindex]
    apply decodeInto_readError
    rw [if_pos (UInt16.le_iff_toNat_le.mpr (Nat.le_of_not_lt hindex))]
    rfl

end

/-- The strings, one behind the other, are the payload. -/
theorem strings_tile {xs : List UInt8} {n : Nat} (h : xs.length = 40 + n * 30) :
    xs.take 30 ++ (xs.drop 30).take 10
        ++ (List.range n).flatMap (fun k => (xs.drop (40 + k * 30)).take 30) = xs := by
  have hbehind : (xs.drop 40).length = n * 30 := by
    rw [List.length_drop]
    omega
  have hwindows := Layout.range_windows (xs.drop 40) 30 n
  simp only [List.drop_drop] at hwindows
  rw [hwindows, ← hbehind, List.take_length, ← List.take_add, List.take_append_drop]

/-- The extension arrays of a payload with `n` extensions. -/
def verExtensions (xs : List UInt8) (n : Nat) : List (Vector UInt8 31) :=
  (List.range n).map fun k =>
    overwrite (Vector.replicate 31 0) ((xs.drop (40 + k * 30)).take 30 ++ [0])

/-- What the extension arrays hold: the windows behind the base, each with a zero behind it. -/
theorem verExtensions_strings {xs : List UInt8} {n : Nat} (h : xs.length = 40 + n * 30) :
    (verExtensions xs n).flatMap (fun e => e.toList.take 30)
        = (List.range n).flatMap (fun k => (xs.drop (40 + k * 30)).take 30) ∧
      ∀ e ∈ verExtensions xs n, e[30] = 0 := by
  have hstring : ∀ k, k < n → ((xs.drop (40 + k * 30)).take 30).length = 30 := by
    intro k hk
    exact length_window (record_fits h hk)
  constructor
  · rw [verExtensions, List.flatMap_map]
    apply List.flatMap_congr
    intro k hk
    exact (string_array _ (hstring k (List.mem_range.mp hk))).1
  · intro e he
    obtain ⟨k, hk, rfl⟩ := List.mem_map.mp he
    exact (string_array _ (hstring k (List.mem_range.mp hk))).2

/-- **The strings of UBX-MON-VER are the payload.** The length alone decides
whether a frame is accepted. Then the extensions below the count are decoded,
the strings one behind the other are the payload, and the last cell of every
array is zero. Any result but OK leaves the output as it was. -/
theorem ver_tiles :
    (∀ (frame : UbxFrame) (cells : List UInt8), frame.messageClass = 0x0A →
      frame.messageId = 0x04 → frame.payload = some cells →
      frame.payloadLength.toNat ≤ cells.length →
      (∀ n, frame.payloadLength.toNat = 40 + 30 * n → ∀ output,
        ∃ (ver : UbxMonVer) (extensions : List (Vector UInt8 31)),
          ubxMonVerDecode (some frame) (some output) = .ok (.ok, some ver) ∧
          ver.extensionCount.toNat = n ∧ extensions.length = n ∧
          (∀ (k : UInt16) (out : Vector UInt8 31) (hk : k.toNat < extensions.length),
            ubxMonVerExtensionDecode (some frame) k (some out)
              = .ok (.ok, some extensions[k.toNat])) ∧
          (∀ (k : UInt16) (out : Vector UInt8 31), n ≤ k.toNat →
            ubxMonVerExtensionDecode (some frame) k (some out)
              = .ok (.indexOutOfRange, some out)) ∧
          ver.softwareVersion.toList.take 30 ++ ver.hardwareVersion.toList.take 10
            ++ extensions.flatMap (fun e => e.toList.take 30)
              = cells.take frame.payloadLength.toNat ∧
          ver.softwareVersion[30] = 0 ∧ ver.hardwareVersion[10] = 0 ∧
          ∀ e ∈ extensions, e[30] = 0) ∧
      ((¬ ∃ n, frame.payloadLength.toNat = 40 + 30 * n) → ∃ r, r ≠ .ok ∧
        (∀ output, ubxMonVerDecode (some frame) (some output) = .ok (r, some output)) ∧
        ∀ (k : UInt16) (out : Vector UInt8 31),
          ubxMonVerExtensionDecode (some frame) k (some out) = .ok (r, some out))) ∧
    (∀ (frame : Option UbxFrame) (output output' : Option UbxMonVer) (r : UbxMonDecodeResult),
      ubxMonVerDecode frame output = .ok (r, output') → r ≠ .ok → output' = output) ∧
    ∀ (frame : Option UbxFrame) (k : UInt16) (output output' : Option (Vector UInt8 31))
        (r : UbxMonDecodeResult),
      ubxMonVerExtensionDecode frame k output = .ok (r, output') → r ≠ .ok → output' = output := by
  refine ⟨?_, fun _ _ _ _ => decodeInto_untouched, fun _ _ _ _ _ => decodeInto_untouched⟩
  intro frame cells hclass hid hpayload hcells
  have hreadable : frame.Readable := by
    intro cells' hcells'
    cases hpayload.symm.trans hcells'
    exact hcells
  obtain ⟨hsplit, hlen⟩ := hreadable.split hpayload
  generalize cells.take frame.payloadLength.toNat = xs at hsplit hlen ⊢
  rw [hlen]
  rw [hsplit]
  rcases ubxMonVerValidate_length hclass hid hlen
    with ⟨count, hcount, haccept⟩ | ⟨hbad, r, hr, hrefuse⟩
  · constructor
    · intro n hn output
      have hn' : count.toNat = n := by omega
      subst hn'
      obtain ⟨hstrings, hzeros⟩ := verExtensions_strings hcount
      obtain ⟨hsw, hsw0⟩ := string_array output.softwareVersion
        (@length_window _ xs 0 30 (by omega))
      obtain ⟨hhw, hhw0⟩ := string_array output.hardwareVersion
        (@length_window _ xs 30 10 (by omega))
      rw [List.drop_zero] at hsw hsw0
      have hlength : (verExtensions xs count.toNat).length = count.toNat := by
        rw [verExtensions, List.length_map, List.length_range]
      refine ⟨_, verExtensions xs count.toNat,
        ubxMonVerDecode_reads (by omega) haccept output, rfl, hlength, ?_, ?_, ?_, hsw0, hhw0,
        hzeros⟩
      · intro k out hk
        rw [hlength] at hk
        rw [ubxMonVerExtensionDecode_reads hcount haccept, if_pos hk]
        simp only [verExtensions, List.getElem_map, List.getElem_range]
        rw [string_full out (Vector.replicate 31 0) (length_window (record_fits hcount hk))]
      · intro k out hk
        rw [ubxMonVerExtensionDecode_reads hcount haccept, if_neg (Nat.not_lt.mpr hk)]
      · dsimp only
        rw [hsw, hhw, hstrings, strings_tile hcount]
    · intro hnone
      exact absurd ⟨count.toNat, by omega⟩ hnone
  · constructor
    · intro n hn
      exact absurd ⟨n, hn⟩ hbad
    · intro _
      refine ⟨r, hr, ?_, ?_⟩
      · intro output
        rw [ubxMonVerDecode, hrefuse, decodeInto_error]
      · intro k out
        rw [ubxMonVerExtensionDecode, hrefuse, decodeInto_error]

/-- Two extensions; a byte too many; and a missing frame. -/
theorem ver_tiles_two :
    let cells : List UInt8 := List.replicate 70 65 ++ List.replicate 30 66
    let frame : UbxFrame := ⟨0x0A, 0x04, 100, some cells⟩
    let long : UbxFrame := ⟨0x0A, 0x04, 71, some (List.replicate 71 65)⟩
    let output : UbxMonVer := ⟨Vector.replicate 31 9, Vector.replicate 11 9, 9⟩
    let out : Vector UInt8 31 := Vector.replicate 31 9
    (∃ (ver : UbxMonVer) (first second : Vector UInt8 31),
      ubxMonVerDecode (some frame) (some output) = .ok (.ok, some ver) ∧
      ubxMonVerExtensionDecode (some frame) 0 (some out) = .ok (.ok, some first) ∧
      ubxMonVerExtensionDecode (some frame) 1 (some out) = .ok (.ok, some second) ∧
      ubxMonVerExtensionDecode (some frame) 2 (some out) = .ok (.indexOutOfRange, some out) ∧
      ver.softwareVersion.toList.take 30 ++ ver.hardwareVersion.toList.take 10
        ++ [first, second].flatMap (fun e => e.toList.take 30) = cells.take 100 ∧
      ver.softwareVersion[30] = 0 ∧ second[30] = 0) ∧
    (∃ r, r ≠ .ok ∧ ubxMonVerDecode (some long) (some output) = .ok (r, some output)) ∧
    some output = some output ∧ some out = some out := by
  intro cells frame long output out
  obtain ⟨hframes, huntouched, huntouched'⟩ := ver_tiles
  refine ⟨?_, ?_, huntouched none _ _ .nullArgument rfl (by simp),
    huntouched' none 0 _ _ .nullArgument rfl (by simp)⟩
  · obtain ⟨ver, extensions, hver, -, hlength, hbelow, habove, htiles, hzero, -, hzeros⟩ :=
      (hframes frame _ rfl rfl rfl (by simp [frame, cells])).1 2 rfl output
    obtain ⟨first, second, hboth⟩ := List.length_eq_two.mp hlength
    subst hboth
    exact ⟨ver, first, second, hver, hbelow 0 out (Nat.zero_lt_two), hbelow 1 out Nat.one_lt_two,
      habove 2 out (Nat.le_refl 2), htiles, hzero,
      hzeros second (List.mem_cons_of_mem _ (List.mem_singleton_self _))⟩
  · obtain ⟨r, hr, hrefuse, -⟩ := (hframes long _ rfl rfl rfl (by simp [long])).2 (by
      intro h
      obtain ⟨n, hn⟩ := h
      have hn' : 71 = 40 + 30 * n := hn
      omega)
    exact ⟨r, hr, hrefuse output⟩

end Ubx.Decode
