import Ubx.Decode.Payload

/-!
# The receiver monitor: `src/ubx_mon.c`

The decoders of UBX-MON-VER, RXR, COMMS and RF. The payload of VER, COMMS and
RF is a header and records of one length, as many as the payload has room for
(VER) or as its second byte says (COMMS, RF). A validator checks that count
against `payload_length`, and a record is read only below it, so every record
lies in the payload (`ubxMonVerValidate_count`, `ubxMonCountedValidate_count`).

A validator writes its count through a pointer to a local of its caller, which
is never `NULL`. It is modelled as what it returns: the error, or the count.
-/

namespace Ubx.Decode

open Lib Ubx.Stream

/-- `ubx_mon_decode_result_t`. -/
inductive UbxMonDecodeResult where
  | ok
  | nullArgument
  | wrongMessage
  | wrongLength
  | unsupportedVersion
  | malformedPayload
  | indexOutOfRange
  deriving DecidableEq, Repr

variable {frame : UbxFrame} {xs : List UInt8}

/-! ## Validators -/

/-- `ubx_mon_validate_message`. -/
def ubxMonValidateMessage (frame : Option UbxFrame) (messageId : UInt8) :
    Except UbxMonDecodeResult Unit :=
  match frame with
  | none => .error .nullArgument
  | some frame =>
    if frame.payload.isNone then .error .nullArgument
    else if frame.messageClass ≠ 0x0A ∨ frame.messageId ≠ messageId then .error .wrongMessage
    else .ok ()

/-- `ubx_mon_ver_validate`. -/
def ubxMonVerValidate (frame : Option UbxFrame) : Run (Except UbxMonDecodeResult UInt16) :=
  match ubxMonValidateMessage frame 0x04 with
  | .error result => return .error result
  | .ok _ => do
    let frame ← deref frame
    if frame.payloadLength < 40 then
      return .error .wrongLength
    let extensionBytes := frame.payloadLength - 40
    if extensionBytes % 30 ≠ 0 then
      return .error .malformedPayload
    return .ok (extensionBytes / 30)

/-- What `ubx_mon_rf_validate` and `ubx_mon_comms_validate` share: a header with
the version and the number of records, and that many records behind it. The
expected length is a `uint32_t`, which 255 records do not fill. -/
def ubxMonCountedValidate (messageId : UInt8) (headerLength : UInt16) (recordLength : Nat)
    (frame : Option UbxFrame) : Run (Except UbxMonDecodeResult UInt8) :=
  match ubxMonValidateMessage frame messageId with
  | .error result => return .error result
  | .ok _ => do
    let frame ← deref frame
    if frame.payloadLength < headerLength then
      return .error .wrongLength
    let version ← load frame.payload 0
    if version ≠ 0x00 then
      return .error .unsupportedVersion
    let count ← load frame.payload 1
    let expectedLength := headerLength.toNat + count.toNat * recordLength
    if frame.payloadLength.toNat ≠ expectedLength then
      return .error .malformedPayload
    return .ok count

/-- `ubx_mon_rf_validate`. -/
def ubxMonRfValidate (frame : Option UbxFrame) : Run (Except UbxMonDecodeResult UInt8) :=
  ubxMonCountedValidate 0x38 4 24 frame

/-- `ubx_mon_comms_validate`. -/
def ubxMonCommsValidate (frame : Option UbxFrame) : Run (Except UbxMonDecodeResult UInt8) :=
  ubxMonCountedValidate 0x36 8 40 frame

theorem ubxMonValidateMessage_some (messageId : UInt8) (cells : List UInt8) :
    ubxMonValidateMessage (some (frame.withPayload (some cells))) messageId
      = if frame.messageClass ≠ 0x0A ∨ frame.messageId ≠ messageId then .error .wrongMessage
        else .ok () := by
  unfold ubxMonValidateMessage
  exact if_neg nofun

theorem ubxMonValidateMessage_null (messageId : UInt8) (h : frame.payload = none) :
    ubxMonValidateMessage (some frame) messageId = .error .nullArgument := by
  unfold ubxMonValidateMessage
  dsimp only
  rw [h]
  exact if_pos Option.isNone_none

/-! A `NULL` payload is refused by the message test, before anything is read. -/

theorem ubxMonVerValidate_null (h : frame.payload = none) :
    ubxMonVerValidate (some frame) = .ok (.error .nullArgument) := by
  rw [ubxMonVerValidate, ubxMonValidateMessage_null _ h]
  rfl

theorem ubxMonCountedValidate_null {messageId : UInt8} {headerLength : UInt16} {recordLength : Nat}
    (h : frame.payload = none) :
    ubxMonCountedValidate messageId headerLength recordLength (some frame)
      = .ok (.error .nullArgument) := by
  rw [ubxMonCountedValidate, ubxMonValidateMessage_null _ h]
  rfl

/-- What the validator says of a payload: only its length counts. -/
theorem ubxMonVerValidate_front (more : List UInt8) :
    ubxMonVerValidate (some (frame.withPayload (some (xs ++ more))))
      = .ok (if frame.messageClass ≠ 0x0A ∨ frame.messageId ≠ 0x04 then .error .wrongMessage
          else if frame.payloadLength < 40 then .error .wrongLength
          else if (frame.payloadLength - 40) % 30 ≠ 0 then .error .malformedPayload
          else .ok ((frame.payloadLength - 40) / 30)) := by
  rw [ubxMonVerValidate, ubxMonValidateMessage_some]
  by_cases hmessage : frame.messageClass ≠ 0x0A ∨ frame.messageId ≠ 0x04
  · rw [if_pos hmessage, if_pos hmessage]
    rfl
  · rw [if_neg hmessage, if_neg hmessage]
    show (if frame.payloadLength < 40 then _ else _) = _
    split
    next => rfl
    next =>
      show (if (frame.payloadLength - 40) % 30 ≠ 0 then _ else _) = _
      split
      next => rfl
      next => rfl

theorem ubxMonVerValidate_confined :
    Confined xs fun payload => ubxMonVerValidate (some (frame.withPayload payload)) :=
  ⟨_, ubxMonVerValidate_front⟩

/-- An accepted payload is the base and the extensions. -/
theorem ubxMonVerValidate_count {extensionCount : UInt16}
    (hlen : frame.payloadLength.toNat = xs.length)
    (h : ubxMonVerValidate (some (frame.withPayload (some xs))) = .ok (.ok extensionCount)) :
    xs.length = 40 + extensionCount.toNat * 30 := by
  rw [← List.append_nil xs, ubxMonVerValidate_front] at h
  obtain ⟨-, h⟩ := refuse_eq_ok.mp (Except.ok.inj h)
  obtain ⟨hbase, h⟩ := refuse_eq_ok.mp h
  obtain ⟨hmod, hcount⟩ := refuse_eq_ok.mp h
  have hbase' : 40 ≤ frame.payloadLength.toNat := UInt16.not_lt.mp hbase
  have hsub : (frame.payloadLength - 40).toNat = frame.payloadLength.toNat - 40 :=
    UInt16.toNat_sub_of_le _ _ (UInt16.not_lt.mp hbase)
  -- the 16-bit division leaves no remainder, so the extensions fill the rest
  have hrest : (frame.payloadLength.toNat - 40) % 30 = 0 := by
    have hmod' := congrArg UInt16.toNat (not_not.mp hmod)
    rwa [UInt16.toNat_mod, hsub] at hmod'
  rw [← Except.ok.inj hcount, UInt16.toNat_div, hsub, ← hlen]
  show _ = 40 + (frame.payloadLength.toNat - 40) / 30 * 30
  omega

/-- What the validator says of a payload that starts with `xs`. -/
theorem ubxMonCountedValidate_front {messageId : UInt8} {headerLength : UInt16} {recordLength : Nat}
    (hlen : frame.payloadLength.toNat = xs.length) (hheader : 2 ≤ headerLength.toNat)
    (more : List UInt8) :
    ubxMonCountedValidate messageId headerLength recordLength
        (some (frame.withPayload (some (xs ++ more))))
      = .ok (if frame.messageClass ≠ 0x0A ∨ frame.messageId ≠ messageId then .error .wrongMessage
          else if frame.payloadLength < headerLength then .error .wrongLength
          else if byteAt xs 0 ≠ 0x00 then .error .unsupportedVersion
          else if frame.payloadLength.toNat
              ≠ headerLength.toNat + (byteAt xs 1).toNat * recordLength then
            .error .malformedPayload
          else .ok (byteAt xs 1)) := by
  rw [ubxMonCountedValidate, ubxMonValidateMessage_some]
  by_cases hmessage : frame.messageClass ≠ 0x0A ∨ frame.messageId ≠ messageId
  · rw [if_pos hmessage, if_pos hmessage]
    rfl
  · rw [if_neg hmessage, if_neg hmessage]
    show (if frame.payloadLength < headerLength then _ else _) = _
    split
    next => rfl
    next hlength =>
      have htwo : 2 ≤ xs.length := by
        rw [← hlen]
        exact Nat.le_trans hheader (UInt16.not_lt.mp hlength)
      show (load (some (xs ++ more)) 0 >>= _) = _
      rw [readByte_front (by omega), ok_bind]
      split
      next => rfl
      next =>
        show (load (some (xs ++ more)) 1 >>= _) = _
        rw [readByte_front (by omega), ok_bind]
        show (if frame.payloadLength.toNat ≠ _ then _ else _) = _
        split
        next => rfl
        next => rfl

/-- An accepted payload is the header and the records. -/
theorem ubxMonCountedValidate_count {messageId : UInt8} {headerLength : UInt16}
    {recordLength : Nat} {count : UInt8} (hlen : frame.payloadLength.toNat = xs.length)
    (hheader : 2 ≤ headerLength.toNat)
    (h : ubxMonCountedValidate messageId headerLength recordLength
      (some (frame.withPayload (some xs))) = .ok (.ok count)) :
    xs.length = headerLength.toNat + count.toNat * recordLength := by
  rw [← List.append_nil xs, ubxMonCountedValidate_front hlen hheader] at h
  obtain ⟨-, h⟩ := refuse_eq_ok.mp (Except.ok.inj h)
  obtain ⟨-, h⟩ := refuse_eq_ok.mp h
  obtain ⟨-, h⟩ := refuse_eq_ok.mp h
  obtain ⟨hexpected, hcount⟩ := refuse_eq_ok.mp h
  rw [← Except.ok.inj hcount, ← hlen, not_not.mp hexpected]

/-! ## UBX-MON-VER -/

/-- `ubx_mon_ver_t`; a string is the bytes of its array. -/
structure UbxMonVer where
  softwareVersion : Vector UInt8 31
  hardwareVersion : Vector UInt8 11
  extensionCount : UInt16
  deriving DecidableEq, Repr

/-- `ubx_mon_copy_string`. -/
def ubxMonCopyString {n : Nat} (destination : Vector UInt8 n) (payload : Option (List UInt8))
    (offset fieldLength : Nat) : Run (Vector UInt8 n) := do
  let destination ← copyInto destination payload offset fieldLength
  storeAt destination fieldLength 0

/-- `ubx_mon_ver_decode`. -/
def ubxMonVerDecode (frame : Option UbxFrame) (output : Option UbxMonVer) :
    Run (UbxMonDecodeResult × Option UbxMonVer) :=
  decodeInto .nullArgument .ok output (ubxMonVerValidate frame) fun extensionCount output => do
    let frame ← deref frame
    let softwareVersion ← ubxMonCopyString output.softwareVersion frame.payload 0 30
    let hardwareVersion ← ubxMonCopyString output.hardwareVersion frame.payload 30 10
    return .ok { softwareVersion, hardwareVersion, extensionCount }

/-- `ubx_mon_ver_extension_decode`. -/
def ubxMonVerExtensionDecode (frame : Option UbxFrame) (extensionIndex : UInt16)
    (output : Option (Vector UInt8 31)) : Run (UbxMonDecodeResult × Option (Vector UInt8 31)) :=
  decodeInto .nullArgument .ok output (ubxMonVerValidate frame) fun extensionCount output => do
    if extensionIndex ≥ extensionCount then
      return .error .indexOutOfRange
    let frame ← deref frame
    let offset := 40 + extensionIndex.toNat * 30
    let output ← ubxMonCopyString output frame.payload offset 30
    return .ok output

/-- The field and the zero behind it. -/
theorem ubxMonCopyString_front {n offset fieldLength : Nat} {destination : Vector UInt8 n}
    (h : offset + fieldLength ≤ xs.length) (hn : fieldLength < n) (more : List UInt8) :
    ubxMonCopyString destination (some (xs ++ more)) offset fieldLength
      = .ok (overwrite destination ((xs.drop offset).take fieldLength ++ [0])) := by
  have hfield : fieldLength = ((xs.drop offset).take fieldLength).length :=
    (length_window h).symm
  rw [ubxMonCopyString, copyInto_front h (Nat.le_of_lt hn), ok_bind, storeAt_overwrite hfield hn]

theorem ubxMonVerDecode_confined (output : Option UbxMonVer)
    (hlen : frame.payloadLength.toNat = xs.length) :
    Confined xs fun payload => ubxMonVerDecode (some (frame.withPayload payload)) output := by
  refine decodeInto_confined ubxMonVerValidate_confined ?_
  intro extensionCount output haccept
  have hcount := ubxMonVerValidate_count hlen haccept
  simp only [deref_some, ok_bind, UbxFrame.withPayload_payload]
  refine .bind ⟨_, ubxMonCopyString_front (by omega) (by omega)⟩ ?_
  intro softwareVersion _
  exact .bind ⟨_, ubxMonCopyString_front (by omega) (by omega)⟩ fun hardwareVersion _ => .pure _

theorem ubxMonVerExtensionDecode_confined (extensionIndex : UInt16)
    (output : Option (Vector UInt8 31)) (hlen : frame.payloadLength.toNat = xs.length) :
    Confined xs fun payload =>
      ubxMonVerExtensionDecode (some (frame.withPayload payload)) extensionIndex output := by
  refine decodeInto_confined ubxMonVerValidate_confined ?_
  intro extensionCount output haccept
  have hcount := ubxMonVerValidate_count hlen haccept
  refine .ite (fun _ => .pure _) ?_
  intro hindex
  have hfits := record_fits hcount (UInt16.lt_iff_toNat_lt.mp (UInt16.not_le.mp hindex))
  simp only [deref_some, ok_bind, UbxFrame.withPayload_payload]
  exact .bind ⟨_, ubxMonCopyString_front hfits (by omega)⟩ fun output _ => .pure _

theorem ubxMonVerDecode_readsWithin (h : Delivered frame) (output : Option UbxMonVer) :
    ReadsWithin frame fun frame => ubxMonVerDecode (some frame) output := by
  refine h.decodeInto_readsWithin (fun hnull => ?_) fun _ => ubxMonVerDecode_confined output
  exact ⟨_, ubxMonVerValidate_null hnull⟩

theorem ubxMonVerExtensionDecode_readsWithin (h : Delivered frame) (extensionIndex : UInt16)
    (output : Option (Vector UInt8 31)) :
    ReadsWithin frame fun frame => ubxMonVerExtensionDecode (some frame) extensionIndex output := by
  refine h.decodeInto_readsWithin (fun hnull => ?_)
    fun _ => ubxMonVerExtensionDecode_confined extensionIndex output
  exact ⟨_, ubxMonVerValidate_null hnull⟩

/-! ## UBX-MON-RXR -/

/-- `ubx_mon_rxr_t`. -/
structure UbxMonRxr where
  flags : UInt8
  deriving DecidableEq, Repr

/-- `ubx_mon_rxr_decode`. -/
def ubxMonRxrDecode (frame : Option UbxFrame) (output : Option UbxMonRxr) :
    Run (UbxMonDecodeResult × Option UbxMonRxr) :=
  decodeInto .nullArgument .ok output (return ubxMonValidateMessage frame 0x21) fun _ _ => do
    let frame ← deref frame
    if frame.payloadLength ≠ 1 then
      return .error .wrongLength
    let flags ← load frame.payload 0
    return .ok { flags }

theorem ubxMonRxrDecode_confined (output : Option UbxMonRxr)
    (hlen : frame.payloadLength.toNat = xs.length) :
    Confined xs fun payload => ubxMonRxrDecode (some (frame.withPayload payload)) output := by
  have hmessage : Confined xs fun payload => (pure (ubxMonValidateMessage
      (some (frame.withPayload payload)) 0x21) : Run (Except UbxMonDecodeResult Unit)) :=
    ⟨_, fun more => congrArg Except.ok (ubxMonValidateMessage_some 0x21 (xs ++ more))⟩
  refine decodeInto_confined hmessage ?_
  intro _ _ _
  simp only [deref_some, ok_bind, UbxFrame.withPayload_payload, UbxFrame.withPayload_payloadLength]
  refine .ite (fun _ => .pure _) ?_
  intro hone
  have hbyte : 0 < xs.length := by
    rw [← hlen, not_not.mp hone]
    exact Nat.one_pos
  exact .bind (.load hbyte) fun flags _ => .pure _

theorem ubxMonRxrDecode_readsWithin (h : Delivered frame) (output : Option UbxMonRxr) :
    ReadsWithin frame fun frame => ubxMonRxrDecode (some frame) output := by
  refine h.decodeInto_readsWithin (fun hnull => ?_) fun _ => ubxMonRxrDecode_confined output
  exact ⟨_, congrArg Except.ok (ubxMonValidateMessage_null 0x21 hnull)⟩

/-! ## UBX-MON-COMMS -/

/-- `ubx_mon_comms_t`. -/
structure UbxMonComms where
  version : UInt8
  portCount : UInt8
  txErrors : UInt8
  protocolIds : Vector UInt8 4
  deriving DecidableEq, Repr

/-- `ubx_mon_comms_port_t`. -/
structure UbxMonCommsPort where
  portId : UInt16
  txPending : UInt16
  txBytes : UInt32
  txUsage : UInt8
  txPeakUsage : UInt8
  rxPending : UInt16
  rxBytes : UInt32
  rxUsage : UInt8
  rxPeakUsage : UInt8
  overrunErrorCount : UInt16
  messageCount : Vector UInt16 4
  skippedBytes : UInt32
  deriving DecidableEq, Repr

/-- `ubx_mon_comms_decode`. -/
def ubxMonCommsDecode (frame : Option UbxFrame) (output : Option UbxMonComms) :
    Run (UbxMonDecodeResult × Option UbxMonComms) :=
  decodeInto .nullArgument .ok output (ubxMonCommsValidate frame) fun portCount output => do
    let frame ← deref frame
    let version ← load frame.payload 0
    let txErrors ← load frame.payload 2
    let protocolIds ← copyInto output.protocolIds frame.payload 4 4
    return .ok { version, portCount, txErrors, protocolIds }

/-- The assignments of `ubx_mon_comms_port_decode`; `port` is the offset of the record. -/
def ubxMonCommsPortFields (payload : Option (List UInt8)) (port : Nat)
    (output : UbxMonCommsPort) : Run UbxMonCommsPort := do
  let portId ← ubxReadU16Le payload port
  let txPending ← ubxReadU16Le payload (port + 2)
  let txBytes ← ubxReadU32Le payload (port + 4)
  let txUsage ← load payload (port + 8)
  let txPeakUsage ← load payload (port + 9)
  let rxPending ← ubxReadU16Le payload (port + 10)
  let rxBytes ← ubxReadU32Le payload (port + 12)
  let rxUsage ← load payload (port + 16)
  let rxPeakUsage ← load payload (port + 17)
  let overrunErrorCount ← ubxReadU16Le payload (port + 18)
  let messageCount ← forUp 0 4 (fun protocolIndex messageCount => do
    let count ← ubxReadU16Le payload (port + (20 + protocolIndex * 2))
    storeAt messageCount protocolIndex count) output.messageCount
  let skippedBytes ← ubxReadU32Le payload (port + 36)
  return {
    portId, txPending, txBytes, txUsage, txPeakUsage, rxPending, rxBytes, rxUsage, rxPeakUsage,
    overrunErrorCount, messageCount, skippedBytes }

/-- `ubx_mon_comms_port_decode`. -/
def ubxMonCommsPortDecode (frame : Option UbxFrame) (portIndex : UInt8)
    (output : Option UbxMonCommsPort) : Run (UbxMonDecodeResult × Option UbxMonCommsPort) :=
  decodeInto .nullArgument .ok output (ubxMonCommsValidate frame) fun portCount output => do
    if portIndex ≥ portCount then
      return .error .indexOutOfRange
    let frame ← deref frame
    let offset := 8 + portIndex.toNat * 40
    let output ← ubxMonCommsPortFields frame.payload offset output
    return .ok output

/-- The record at an offset of the payload; its counts take the place of those
that were in the array. -/
def UbxMonCommsPort.ofPayload (xs : List UInt8) (port : Nat) (output : UbxMonCommsPort) :
    UbxMonCommsPort where
  portId := u16At xs port
  txPending := u16At xs (port + 2)
  txBytes := u32At xs (port + 4)
  txUsage := byteAt xs (port + 8)
  txPeakUsage := byteAt xs (port + 9)
  rxPending := u16At xs (port + 10)
  rxBytes := u32At xs (port + 12)
  rxUsage := byteAt xs (port + 16)
  rxPeakUsage := byteAt xs (port + 17)
  overrunErrorCount := u16At xs (port + 18)
  messageCount := overwrite output.messageCount
    ((List.range 4).map fun protocolIndex => u16At xs (port + (20 + protocolIndex * 2)))
  skippedBytes := u32At xs (port + 36)

/-- The inner loop, four counts into the array. -/
theorem messageCount_front {port : Nat} (h : port + 40 ≤ xs.length) (counts : Vector UInt16 4)
    (more : List UInt8) :
    forUp 0 4 (fun protocolIndex messageCount => do
        let count ← ubxReadU16Le (some (xs ++ more)) (port + (20 + protocolIndex * 2))
        storeAt messageCount protocolIndex count) counts
      = .ok (overwrite counts ((List.range 4).map fun protocolIndex =>
          u16At xs (port + (20 + protocolIndex * 2)))) := by
  refine forUp_storeAt counts (w := (List.range 4).map fun protocolIndex =>
    u16At xs (port + (20 + protocolIndex * 2))) (Nat.le_refl 4) ?_
  intro protocolIndex hlt messageCount
  have hbelow : protocolIndex < 4 := hlt
  rw [readU16_front (by omega), ok_bind, List.getElem_map, List.getElem_range]

theorem ubxMonCommsPortFields_front {port : Nat} (h : port + 40 ≤ xs.length)
    (output : UbxMonCommsPort) (more : List UInt8) :
    ubxMonCommsPortFields (some (xs ++ more)) port output = .ok (.ofPayload xs port output) := by
  unfold ubxMonCommsPortFields
  rw [messageCount_front h]
  simp (disch := omega) only [readByte_front, readU16_front, readU32_front, ok_bind]
  rfl

theorem ubxMonCommsValidate_confined (hlen : frame.payloadLength.toNat = xs.length) :
    Confined xs fun payload => ubxMonCommsValidate (some (frame.withPayload payload)) :=
  ⟨_, ubxMonCountedValidate_front hlen (by simp)⟩

theorem ubxMonCommsDecode_confined (output : Option UbxMonComms)
    (hlen : frame.payloadLength.toNat = xs.length) :
    Confined xs fun payload => ubxMonCommsDecode (some (frame.withPayload payload)) output := by
  refine decodeInto_confined (ubxMonCommsValidate_confined hlen) ?_
  intro portCount output haccept
  have hcount := ubxMonCountedValidate_count hlen (by simp) haccept
  have hheader : 8 ≤ xs.length := by
    rw [hcount]
    exact Nat.le_add_right 8 _
  simp only [deref_some, ok_bind, UbxFrame.withPayload_payload]
  refine .bind (.load (by omega)) ?_
  intro version _
  refine .bind (.load (by omega)) ?_
  intro txErrors _
  exact .bind ⟨_, copyInto_front (by omega) (Nat.le_refl 4)⟩ fun protocolIds _ => .pure _

theorem ubxMonCommsPortDecode_confined (portIndex : UInt8) (output : Option UbxMonCommsPort)
    (hlen : frame.payloadLength.toNat = xs.length) :
    Confined xs fun payload =>
      ubxMonCommsPortDecode (some (frame.withPayload payload)) portIndex output := by
  refine decodeInto_confined (ubxMonCommsValidate_confined hlen) ?_
  intro portCount output haccept
  have hcount := ubxMonCountedValidate_count hlen (by simp) haccept
  refine .ite (fun _ => .pure _) ?_
  intro hindex
  have hfits := record_fits hcount (UInt8.lt_iff_toNat_lt.mp (UInt8.not_le.mp hindex))
  simp only [deref_some, ok_bind, UbxFrame.withPayload_payload]
  exact .bind ⟨_, ubxMonCommsPortFields_front hfits output⟩ fun output _ => .pure _

theorem ubxMonCommsDecode_readsWithin (h : Delivered frame) (output : Option UbxMonComms) :
    ReadsWithin frame fun frame => ubxMonCommsDecode (some frame) output := by
  refine h.decodeInto_readsWithin (fun hnull => ?_) fun _ => ubxMonCommsDecode_confined output
  exact ⟨_, ubxMonCountedValidate_null hnull⟩

theorem ubxMonCommsPortDecode_readsWithin (h : Delivered frame) (portIndex : UInt8)
    (output : Option UbxMonCommsPort) :
    ReadsWithin frame fun frame => ubxMonCommsPortDecode (some frame) portIndex output := by
  refine h.decodeInto_readsWithin (fun hnull => ?_)
    fun _ => ubxMonCommsPortDecode_confined portIndex output
  exact ⟨_, ubxMonCountedValidate_null hnull⟩

/-! ## UBX-MON-RF -/

/-- `ubx_mon_rf_t`. -/
structure UbxMonRf where
  version : UInt8
  blockCount : UInt8
  deriving DecidableEq, Repr

/-- `ubx_mon_rf_decode`. -/
def ubxMonRfDecode (frame : Option UbxFrame) (output : Option UbxMonRf) :
    Run (UbxMonDecodeResult × Option UbxMonRf) :=
  decodeInto .nullArgument .ok output (ubxMonRfValidate frame) fun blockCount _ => do
    let frame ← deref frame
    let version ← load frame.payload 0
    return .ok { version, blockCount }

theorem ubxMonRfDecode_confined (output : Option UbxMonRf)
    (hlen : frame.payloadLength.toNat = xs.length) :
    Confined xs fun payload => ubxMonRfDecode (some (frame.withPayload payload)) output := by
  have hvalidate : Confined xs fun payload => ubxMonRfValidate (some (frame.withPayload payload)) :=
    ⟨_, ubxMonCountedValidate_front hlen (by simp)⟩
  refine decodeInto_confined hvalidate ?_
  intro blockCount output haccept
  have hcount := ubxMonCountedValidate_count hlen (by simp) haccept
  have hheader : 4 ≤ xs.length := by
    rw [hcount]
    exact Nat.le_add_right 4 _
  simp only [deref_some, ok_bind, UbxFrame.withPayload_payload]
  exact .bind (.load (by omega)) fun version _ => .pure _

theorem ubxMonRfDecode_readsWithin (h : Delivered frame) (output : Option UbxMonRf) :
    ReadsWithin frame fun frame => ubxMonRfDecode (some frame) output := by
  refine h.decodeInto_readsWithin (fun hnull => ?_) fun _ => ubxMonRfDecode_confined output
  exact ⟨_, ubxMonCountedValidate_null hnull⟩

end Ubx.Decode
