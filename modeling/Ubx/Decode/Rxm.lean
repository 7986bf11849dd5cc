import Ubx.Decode.Payload

/-!
# The receiver manager: `src/ubx_rxm.c`

The decoders of UBX-RXM-RAWX and UBX-RXM-SFRBX. Both payloads are a header and
records of one length, and a byte of the header says how many. The validators
check it against `payload_length`; the record decoders read that byte once more
to check the index, so a record is read only below the count that was validated
(`ubxRxmCountedValidate_count`).
-/

namespace Ubx.Decode

open Lib Ubx.Stream

/-- `ubx_rxm_decode_result_t`. -/
inductive UbxRxmDecodeResult where
  | ok
  | nullArgument
  | wrongMessage
  | wrongLength
  | unsupportedVersion
  | indexOutOfRange
  | invalidValue
  deriving DecidableEq, Repr

variable {frame : UbxFrame} {xs : List UInt8}

/-! ## Validators -/

/-- What `ubx_rxm_rawx_validate` and `ubx_rxm_sfrbx_validate` share. The expected
length is a `size_t`, at most 8176, so no width of it matters. -/
def ubxRxmCountedValidate (messageId : UInt8) (headerLength : UInt16) (versionOffset : Nat)
    (version : UInt8) (countOffset recordLength : Nat) (frame : Option UbxFrame) :
    Run (Except UbxRxmDecodeResult Unit) :=
  match frame with
  | none => return .error .nullArgument
  | some frame => do
    if frame.payload.isNone then
      return .error .nullArgument
    if frame.messageClass ≠ 0x02 ∨ frame.messageId ≠ messageId then
      return .error .wrongMessage
    if frame.payloadLength < headerLength then
      return .error .wrongLength
    let found ← load frame.payload versionOffset
    if found ≠ version then
      return .error .unsupportedVersion
    let count ← load frame.payload countOffset
    let expected := headerLength.toNat + count.toNat * recordLength
    if frame.payloadLength.toNat ≠ expected then
      return .error .wrongLength
    return .ok ()

/-- `ubx_rxm_rawx_validate`. -/
def ubxRxmRawxValidate (frame : Option UbxFrame) : Run (Except UbxRxmDecodeResult Unit) :=
  ubxRxmCountedValidate 0x15 16 13 0x01 11 32 frame

/-- `ubx_rxm_sfrbx_validate`. -/
def ubxRxmSfrbxValidate (frame : Option UbxFrame) : Run (Except UbxRxmDecodeResult Unit) :=
  ubxRxmCountedValidate 0x13 8 6 0x02 4 4 frame

section

variable {messageId version : UInt8} {headerLength : UInt16}
  {versionOffset countOffset recordLength : Nat}

/-- What the validator says of a payload that starts with `xs`, where the header
holds the version and the count. -/
theorem ubxRxmCountedValidate_front (hlen : frame.payloadLength.toNat = xs.length)
    (hversion : versionOffset < headerLength.toNat) (hcount : countOffset < headerLength.toNat)
    (more : List UInt8) :
    ubxRxmCountedValidate messageId headerLength versionOffset version countOffset recordLength
        (some (frame.withPayload (some (xs ++ more))))
      = .ok (if frame.messageClass ≠ 0x02 ∨ frame.messageId ≠ messageId then .error .wrongMessage
          else if frame.payloadLength < headerLength then .error .wrongLength
          else if byteAt xs versionOffset ≠ version then .error .unsupportedVersion
          else if frame.payloadLength.toNat
              ≠ headerLength.toNat + (byteAt xs countOffset).toNat * recordLength then
            .error .wrongLength
          else .ok ()) := by
  unfold ubxRxmCountedValidate
  dsimp only
  rw [UbxFrame.withPayload_payload, if_neg nofun]
  show (if frame.messageClass ≠ 0x02 ∨ frame.messageId ≠ messageId then _ else _) = _
  split
  next => rfl
  next =>
    show (if frame.payloadLength < headerLength then _ else _) = _
    split
    next => rfl
    next hlength =>
      have hheader : headerLength.toNat ≤ xs.length := by
        rw [← hlen]
        exact UInt16.not_lt.mp hlength
      rw [readByte_front (by omega), ok_bind]
      split
      next => rfl
      next =>
        rw [readByte_front (by omega), ok_bind]
        show (if frame.payloadLength.toNat ≠ _ then _ else _) = _
        split
        next => rfl
        next => rfl

/-- An accepted payload is the header and the records it counts. -/
theorem ubxRxmCountedValidate_count (hlen : frame.payloadLength.toNat = xs.length)
    (hversion : versionOffset < headerLength.toNat) (hcount : countOffset < headerLength.toNat)
    (h : ubxRxmCountedValidate messageId headerLength versionOffset version countOffset recordLength
      (some (frame.withPayload (some xs))) = .ok (.ok ())) :
    xs.length = headerLength.toNat + (byteAt xs countOffset).toNat * recordLength := by
  rw [← List.append_nil xs, ubxRxmCountedValidate_front hlen hversion hcount] at h
  obtain ⟨-, h⟩ := refuse_eq_ok.mp (Except.ok.inj h)
  obtain ⟨-, h⟩ := refuse_eq_ok.mp h
  obtain ⟨-, h⟩ := refuse_eq_ok.mp h
  obtain ⟨hexpected, -⟩ := refuse_eq_ok.mp h
  rw [← hlen]
  exact not_not.mp hexpected

theorem ubxRxmCountedValidate_null (h : frame.payload = none) :
    ubxRxmCountedValidate messageId headerLength versionOffset version countOffset recordLength
      (some frame) = .ok (.error .nullArgument) := by
  unfold ubxRxmCountedValidate
  dsimp only
  rw [h]
  exact if_pos Option.isNone_none

end

/-! ## UBX-RXM-RAWX -/

/-- `ubx_rxm_rawx_t`; a `double` is its bit pattern. -/
structure UbxRxmRawx where
  receiverTow : UInt64
  week : UInt16
  leapSeconds : Int8
  measurementCount : UInt8
  receiverStatus : UInt8
  version : UInt8
  deriving DecidableEq, Repr

/-- `ubx_rxm_rawx_measurement_t`; a `double` and a `float` are their bit patterns. -/
structure UbxRxmRawxMeasurement where
  pseudorange : UInt64
  carrierPhase : UInt64
  doppler : UInt32
  gnssId : UInt8
  satelliteId : UInt8
  signalId : UInt8
  frequencyId : UInt8
  lockTime : UInt16
  cno : UInt8
  pseudorangeStdev : UInt8
  carrierPhaseStdev : UInt8
  dopplerStdev : UInt8
  trackingStatus : UInt8
  deriving DecidableEq, Repr

/-- The assignments of `ubx_rxm_rawx_decode`. -/
def ubxRxmRawxFields (payload : Option (List UInt8)) : Run UbxRxmRawx := do
  let receiverTow ← ubxReadR8Le payload 0
  let week ← ubxReadU16Le payload 8
  let leapSeconds ← ubxReadI8 payload 10
  let measurementCount ← load payload 11
  let receiverStatus ← load payload 12
  let version ← load payload 13
  return { receiverTow, week, leapSeconds, measurementCount, receiverStatus, version }

/-- `ubx_rxm_rawx_decode`. -/
def ubxRxmRawxDecode (frame : Option UbxFrame) (output : Option UbxRxmRawx) :
    Run (UbxRxmDecodeResult × Option UbxRxmRawx) :=
  decodeInto .nullArgument .ok output (ubxRxmRawxValidate frame) fun _ _ => do
    let frame ← deref frame
    let output ← ubxRxmRawxFields frame.payload
    return .ok output

/-- The assignments of `ubx_rxm_rawx_measurement_decode`; `p` is the offset of the record. -/
def ubxRxmRawxMeasurementFields (payload : Option (List UInt8)) (p : Nat) :
    Run UbxRxmRawxMeasurement := do
  let pseudorange ← ubxReadR8Le payload p
  let carrierPhase ← ubxReadR8Le payload (p + 8)
  let doppler ← ubxReadR4Le payload (p + 16)
  let gnssId ← load payload (p + 20)
  let satelliteId ← load payload (p + 21)
  let signalId ← load payload (p + 22)
  let frequencyId ← load payload (p + 23)
  let lockTime ← ubxReadU16Le payload (p + 24)
  let cno ← load payload (p + 26)
  let pseudorangeStdev ← load payload (p + 27)
  let carrierPhaseStdev ← load payload (p + 28)
  let dopplerStdev ← load payload (p + 29)
  let trackingStatus ← load payload (p + 30)
  return {
    pseudorange, carrierPhase, doppler, gnssId, satelliteId, signalId, frequencyId, lockTime, cno,
    pseudorangeStdev, carrierPhaseStdev, dopplerStdev, trackingStatus }

/-- `ubx_rxm_rawx_measurement_decode`. -/
def ubxRxmRawxMeasurementDecode (frame : Option UbxFrame) (measurementIndex : UInt16)
    (output : Option UbxRxmRawxMeasurement) :
    Run (UbxRxmDecodeResult × Option UbxRxmRawxMeasurement) :=
  decodeInto .nullArgument .ok output (ubxRxmRawxValidate frame) fun _ _ => do
    let frame ← deref frame
    let count ← load frame.payload 11
    if measurementIndex.toNat ≥ count.toNat then
      return .error .indexOutOfRange
    let p := 16 + measurementIndex.toNat * 32
    let output ← ubxRxmRawxMeasurementFields frame.payload p
    return .ok output

/-- The header that the first bytes stand for. -/
def UbxRxmRawx.ofPayload (xs : List UInt8) : UbxRxmRawx where
  receiverTow := u64At xs 0
  week := u16At xs 8
  leapSeconds := (byteAt xs 10).toInt8
  measurementCount := byteAt xs 11
  receiverStatus := byteAt xs 12
  version := byteAt xs 13

/-- The record at an offset of the payload. -/
def UbxRxmRawxMeasurement.ofPayload (xs : List UInt8) (p : Nat) : UbxRxmRawxMeasurement where
  pseudorange := u64At xs p
  carrierPhase := u64At xs (p + 8)
  doppler := u32At xs (p + 16)
  gnssId := byteAt xs (p + 20)
  satelliteId := byteAt xs (p + 21)
  signalId := byteAt xs (p + 22)
  frequencyId := byteAt xs (p + 23)
  lockTime := u16At xs (p + 24)
  cno := byteAt xs (p + 26)
  pseudorangeStdev := byteAt xs (p + 27)
  carrierPhaseStdev := byteAt xs (p + 28)
  dopplerStdev := byteAt xs (p + 29)
  trackingStatus := byteAt xs (p + 30)

theorem ubxRxmRawxFields_front (h : 14 ≤ xs.length) (more : List UInt8) :
    ubxRxmRawxFields (some (xs ++ more)) = .ok (.ofPayload xs) := by
  unfold ubxRxmRawxFields ubxReadR8Le
  simp (disch := omega) only [readByte_front, readU16_front, readU64_front, readI8_front, ok_bind]
  rfl

theorem ubxRxmRawxMeasurementFields_front {p : Nat} (h : p + 32 ≤ xs.length) (more : List UInt8) :
    ubxRxmRawxMeasurementFields (some (xs ++ more)) p = .ok (.ofPayload xs p) := by
  unfold ubxRxmRawxMeasurementFields ubxReadR8Le ubxReadR4Le
  simp (disch := omega) only [readByte_front, readU16_front, readU32_front, readU64_front, ok_bind]
  rfl

theorem ubxRxmRawxValidate_confined (hlen : frame.payloadLength.toNat = xs.length) :
    Confined xs fun payload => ubxRxmRawxValidate (some (frame.withPayload payload)) :=
  ⟨_, ubxRxmCountedValidate_front hlen (by simp) (by simp)⟩

theorem ubxRxmRawxValidate_count (hlen : frame.payloadLength.toNat = xs.length)
    (h : ubxRxmRawxValidate (some (frame.withPayload (some xs))) = .ok (.ok ())) :
    xs.length = 16 + (byteAt xs 11).toNat * 32 :=
  ubxRxmCountedValidate_count hlen (by simp) (by simp) h

theorem ubxRxmRawxDecode_confined (output : Option UbxRxmRawx)
    (hlen : frame.payloadLength.toNat = xs.length) :
    Confined xs fun payload => ubxRxmRawxDecode (some (frame.withPayload payload)) output := by
  refine decodeInto_confined (ubxRxmRawxValidate_confined hlen) ?_
  intro _ output haccept
  have hcount := ubxRxmRawxValidate_count hlen haccept
  simp only [deref_some, ok_bind, UbxFrame.withPayload_payload]
  exact .bind ⟨_, ubxRxmRawxFields_front (by omega)⟩ fun output _ => .pure _

theorem ubxRxmRawxMeasurementDecode_confined (measurementIndex : UInt16)
    (output : Option UbxRxmRawxMeasurement) (hlen : frame.payloadLength.toNat = xs.length) :
    Confined xs fun payload =>
      ubxRxmRawxMeasurementDecode (some (frame.withPayload payload)) measurementIndex output := by
  refine decodeInto_confined (ubxRxmRawxValidate_confined hlen) ?_
  intro _ output haccept
  have hcount := ubxRxmRawxValidate_count hlen haccept
  simp only [deref_some, ok_bind, UbxFrame.withPayload_payload]
  refine .bind ⟨_, readByte_front (by omega)⟩ ?_
  intro count hread
  -- the byte is read a second time: it is the one that was validated
  have hbyte := readByte_eq hread
  refine .ite (fun _ => .pure _) ?_
  intro hindex
  have hfits := record_fits hcount (hbyte ▸ Nat.lt_of_not_le hindex)
  exact .bind ⟨_, ubxRxmRawxMeasurementFields_front hfits⟩ fun output _ => .pure _

theorem ubxRxmRawxDecode_readsWithin (h : Delivered frame) (output : Option UbxRxmRawx) :
    ReadsWithin frame fun frame => ubxRxmRawxDecode (some frame) output := by
  refine h.decodeInto_readsWithin (fun hnull => ?_) fun _ => ubxRxmRawxDecode_confined output
  exact ⟨_, ubxRxmCountedValidate_null hnull⟩

theorem ubxRxmRawxMeasurementDecode_readsWithin (h : Delivered frame) (measurementIndex : UInt16)
    (output : Option UbxRxmRawxMeasurement) :
    ReadsWithin frame fun frame =>
      ubxRxmRawxMeasurementDecode (some frame) measurementIndex output := by
  refine h.decodeInto_readsWithin (fun hnull => ?_)
    fun _ => ubxRxmRawxMeasurementDecode_confined measurementIndex output
  exact ⟨_, ubxRxmCountedValidate_null hnull⟩

/-! ## UBX-RXM-SFRBX -/

/-- `ubx_rxm_sfrbx_t`. -/
structure UbxRxmSfrbx where
  gnssId : UInt8
  satelliteId : UInt8
  signalId : UInt8
  frequencyId : UInt8
  wordCount : UInt8
  channel : UInt8
  version : UInt8
  deriving DecidableEq, Repr

/-- The assignments of `ubx_rxm_sfrbx_decode`. -/
def ubxRxmSfrbxFields (data : Option (List UInt8)) : Run UbxRxmSfrbx := do
  let gnssId ← load data 0
  let satelliteId ← load data 1
  let signalId ← load data 2
  let frequencyId ← load data 3
  let wordCount ← load data 4
  let channel ← load data 5
  let version ← load data 6
  return { gnssId, satelliteId, signalId, frequencyId, wordCount, channel, version }

/-- `ubx_rxm_sfrbx_decode`. -/
def ubxRxmSfrbxDecode (frame : Option UbxFrame) (output : Option UbxRxmSfrbx) :
    Run (UbxRxmDecodeResult × Option UbxRxmSfrbx) :=
  decodeInto .nullArgument .ok output (ubxRxmSfrbxValidate frame) fun _ _ => do
    let frame ← deref frame
    let output ← ubxRxmSfrbxFields frame.payload
    return .ok output

/-- `ubx_rxm_sfrbx_word_decode`. -/
def ubxRxmSfrbxWordDecode (frame : Option UbxFrame) (wordIndex : UInt16) (output : Option UInt32) :
    Run (UbxRxmDecodeResult × Option UInt32) :=
  decodeInto .nullArgument .ok output (ubxRxmSfrbxValidate frame) fun _ _ => do
    let frame ← deref frame
    let count ← load frame.payload 4
    if wordIndex.toNat ≥ count.toNat then
      return .error .indexOutOfRange
    let data := 8 + wordIndex.toNat * 4
    let output ← ubxReadU32Le frame.payload data
    return .ok output

/-- The header that the first bytes stand for. -/
def UbxRxmSfrbx.ofPayload (xs : List UInt8) : UbxRxmSfrbx where
  gnssId := byteAt xs 0
  satelliteId := byteAt xs 1
  signalId := byteAt xs 2
  frequencyId := byteAt xs 3
  wordCount := byteAt xs 4
  channel := byteAt xs 5
  version := byteAt xs 6

theorem ubxRxmSfrbxFields_front (h : 7 ≤ xs.length) (more : List UInt8) :
    ubxRxmSfrbxFields (some (xs ++ more)) = .ok (.ofPayload xs) := by
  unfold ubxRxmSfrbxFields
  simp (disch := omega) only [readByte_front, ok_bind]
  rfl

theorem ubxRxmSfrbxValidate_confined (hlen : frame.payloadLength.toNat = xs.length) :
    Confined xs fun payload => ubxRxmSfrbxValidate (some (frame.withPayload payload)) :=
  ⟨_, ubxRxmCountedValidate_front hlen (by simp) (by simp)⟩

theorem ubxRxmSfrbxValidate_count (hlen : frame.payloadLength.toNat = xs.length)
    (h : ubxRxmSfrbxValidate (some (frame.withPayload (some xs))) = .ok (.ok ())) :
    xs.length = 8 + (byteAt xs 4).toNat * 4 :=
  ubxRxmCountedValidate_count hlen (by simp) (by simp) h

theorem ubxRxmSfrbxDecode_confined (output : Option UbxRxmSfrbx)
    (hlen : frame.payloadLength.toNat = xs.length) :
    Confined xs fun payload => ubxRxmSfrbxDecode (some (frame.withPayload payload)) output := by
  refine decodeInto_confined (ubxRxmSfrbxValidate_confined hlen) ?_
  intro _ output haccept
  have hcount := ubxRxmSfrbxValidate_count hlen haccept
  simp only [deref_some, ok_bind, UbxFrame.withPayload_payload]
  exact .bind ⟨_, ubxRxmSfrbxFields_front (by omega)⟩ fun output _ => .pure _

theorem ubxRxmSfrbxWordDecode_confined (wordIndex : UInt16) (output : Option UInt32)
    (hlen : frame.payloadLength.toNat = xs.length) :
    Confined xs fun payload =>
      ubxRxmSfrbxWordDecode (some (frame.withPayload payload)) wordIndex output := by
  refine decodeInto_confined (ubxRxmSfrbxValidate_confined hlen) ?_
  intro _ output haccept
  have hcount := ubxRxmSfrbxValidate_count hlen haccept
  simp only [deref_some, ok_bind, UbxFrame.withPayload_payload]
  refine .bind ⟨_, readByte_front (by omega)⟩ ?_
  intro count hread
  have hbyte := readByte_eq hread
  refine .ite (fun _ => .pure _) ?_
  intro hindex
  have hfits := record_fits hcount (hbyte ▸ Nat.lt_of_not_le hindex)
  exact .bind ⟨_, readU32_front hfits⟩ fun output _ => .pure _

theorem ubxRxmSfrbxDecode_readsWithin (h : Delivered frame) (output : Option UbxRxmSfrbx) :
    ReadsWithin frame fun frame => ubxRxmSfrbxDecode (some frame) output := by
  refine h.decodeInto_readsWithin (fun hnull => ?_) fun _ => ubxRxmSfrbxDecode_confined output
  exact ⟨_, ubxRxmCountedValidate_null hnull⟩

theorem ubxRxmSfrbxWordDecode_readsWithin (h : Delivered frame) (wordIndex : UInt16)
    (output : Option UInt32) :
    ReadsWithin frame fun frame => ubxRxmSfrbxWordDecode (some frame) wordIndex output := by
  refine h.decodeInto_readsWithin (fun hnull => ?_)
    fun _ => ubxRxmSfrbxWordDecode_confined wordIndex output
  exact ⟨_, ubxRxmCountedValidate_null hnull⟩

end Ubx.Decode
