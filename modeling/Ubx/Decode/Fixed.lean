import Ubx.Decode.Payload

/-!
# Messages of one length: `src/ubx_ack.c`, `src/ubx_nav.c`, `src/ubx_tim.c`

UBX-ACK, UBX-NAV-PVT and UBX-TIM-TP have payloads of 2, 92 and 16 bytes. The
decoders refuse every other length before they read, so the length test is all
that keeps their reads in bounds. `ubx_ack_decode` makes no `NULL` test of the
payload; on a delivered frame it needs none, because a `NULL` payload is empty
(`ubxAckDecode_readsWithin`).

Each group of reads has one lemma, `…Fields_front`, that gives the record as a
function of the payload bytes.
-/

namespace Ubx.Decode

open Lib Ubx.Stream

variable {frame : UbxFrame} {xs : List UInt8}

/-! ## UBX-ACK -/

/-- `ubx_ack_type_t`. -/
inductive UbxAckType where
  | nak
  | ack
  deriving DecidableEq, Repr

/-- `ubx_ack_t`. -/
structure UbxAck where
  type : UbxAckType
  acknowledgedClass : UInt8
  acknowledgedId : UInt8
  deriving DecidableEq, Repr

/-- `ubx_ack_decode_result_t`. -/
inductive UbxAckDecodeResult where
  | ok
  | nullArgument
  | wrongClass
  | wrongId
  | wrongLength
  deriving DecidableEq, Repr

/-- The two reads of `ubx_ack_decode`. -/
def ubxAckFields (payload : Option (List UInt8)) (type : UbxAckType) : Run UbxAck := do
  let acknowledgedClass ← load payload 0
  let acknowledgedId ← load payload 1
  return { type := type, acknowledgedClass := acknowledgedClass, acknowledgedId := acknowledgedId }

/-- `ubx_ack_decode`. -/
def ubxAckDecode (frame : Option UbxFrame) (ack : Option UbxAck) :
    Run (UbxAckDecodeResult × Option UbxAck) :=
  match frame, ack with
  | some frame, some ack => do
    if frame.messageClass ≠ 0x05 then
      return (.wrongClass, some ack)
    if frame.payloadLength ≠ 2 then
      return (.wrongLength, some ack)
    if frame.messageId = 0x01 then
      let ack ← ubxAckFields frame.payload .ack
      return (.ok, some ack)
    else if frame.messageId = 0x00 then
      let ack ← ubxAckFields frame.payload .nak
      return (.ok, some ack)
    else
      return (.wrongId, some ack)
  | _, ack => return (.nullArgument, ack)

theorem ubxAckFields_front (h : 2 ≤ xs.length) (type : UbxAckType) (more : List UInt8) :
    ubxAckFields (some (xs ++ more)) type = .ok ⟨type, byteAt xs 0, byteAt xs 1⟩ := by
  rw [ubxAckFields, readByte_front (by omega), readByte_front (by omega)]
  rfl

/-- The reads stand behind the length test, for either id. -/
theorem ubxAckDecode_confined (ack : Option UbxAck) (hlen : frame.payloadLength.toNat = xs.length) :
    Confined xs fun payload => ubxAckDecode (some (frame.withPayload payload)) ack := by
  cases ack with
  | none => exact .pure _
  | some ack =>
    dsimp only [ubxAckDecode, UbxFrame.withPayload]
    refine .ite (fun _ => .pure _) ?_
    intro _
    refine .ite (fun _ => .pure _) ?_
    intro htwo
    have h : 2 ≤ xs.length := by
      rw [← hlen, not_not.mp htwo]
      exact Nat.le_refl 2
    have hfields : ∀ type, Confined xs fun payload => ubxAckFields payload type :=
      fun type => ⟨_, ubxAckFields_front h type⟩
    refine .ite (fun _ => ?_) fun _ => ?_
    · exact .bind (hfields .ack) fun _ _ => .pure _
    · refine .ite (fun _ => ?_) fun _ => .pure _
      exact .bind (hfields .nak) fun _ _ => .pure _

/-- Nothing is read of an empty frame, so a `NULL` payload is not either. -/
theorem ubxAckDecode_empty (ack : Option UbxAck) (hlen : frame.payloadLength = 0) :
    ∃ r, ubxAckDecode (some frame) ack = .ok r := by
  cases ack with
  | none => exact ⟨_, rfl⟩
  | some ack =>
    by_cases hclass : frame.messageClass ≠ 0x05
    · exact ⟨_, if_pos hclass⟩
    · have htwo : frame.payloadLength ≠ 2 := by
        rw [hlen]
        decide
      exact ⟨_, (if_neg hclass).trans (if_pos htwo)⟩

theorem ubxAckDecode_readsWithin (h : Delivered frame) (ack : Option UbxAck) :
    ReadsWithin frame fun frame => ubxAckDecode (some frame) ack :=
  h.readsWithin (fun _ hempty => ubxAckDecode_empty ack hempty)
    fun _ hlen => ubxAckDecode_confined ack hlen

/-! ## One class, one id, one length -/

/-- What `ubx_nav_pvt_decode` and `ubx_tim_tp_decode` share: the message is the
decoder's, it has the decoder's length, its payload is there, and only then is
the output written. -/
def fixedDecode {ρ α : Type} (ok nullArgument wrongMessage wrongLength : ρ)
    (messageClass messageId : UInt8) (payloadLength : UInt16)
    (fields : Option (List UInt8) → Run α) (frame : Option UbxFrame) (output : Option α) :
    Run (ρ × Option α) :=
  match frame, output with
  | some frame, some output => do
    if frame.messageClass ≠ messageClass ∨ frame.messageId ≠ messageId then
      return (wrongMessage, some output)
    if frame.payloadLength ≠ payloadLength then
      return (wrongLength, some output)
    if frame.payload.isNone then
      return (nullArgument, some output)
    let output ← fields frame.payload
    return (ok, some output)
  | _, output => return (nullArgument, output)

section

variable {ρ α : Type} {ok nullArgument wrongMessage wrongLength : ρ}
  {messageClass messageId : UInt8} {payloadLength : UInt16} {fields : Option (List UInt8) → Run α}

/-- The length test is in front of the reads. -/
theorem fixedDecode_confined (output : Option α) (hlen : frame.payloadLength.toNat = xs.length)
    (hfields : payloadLength.toNat = xs.length → Confined xs fields) :
    Confined xs fun payload => fixedDecode ok nullArgument wrongMessage wrongLength messageClass
      messageId payloadLength fields (some (frame.withPayload payload)) output := by
  cases output with
  | none => exact .pure _
  | some output =>
    dsimp only [fixedDecode, UbxFrame.withPayload]
    refine .ite (fun _ => .pure _) ?_
    intro _
    refine .ite (fun _ => .pure _) fun hlength => .nullTest ?_
    have hxs : payloadLength.toNat = xs.length := by rw [← hlen, not_not.mp hlength]
    exact .bind (hfields hxs) fun _ _ => .pure _

/-- A frame without a payload is refused, and the output stays. -/
theorem fixedDecode_null (output : Option α) (hpayload : frame.payload = none) :
    ∃ r, (r = nullArgument ∨ r = wrongMessage ∨ r = wrongLength) ∧
      fixedDecode ok nullArgument wrongMessage wrongLength messageClass messageId payloadLength
        fields (some frame) output = .ok (r, output) := by
  cases output with
  | none => exact ⟨nullArgument, Or.inl rfl, rfl⟩
  | some output =>
    unfold fixedDecode
    dsimp only
    rw [hpayload]
    split
    next => exact ⟨wrongMessage, Or.inr (Or.inl rfl), rfl⟩
    next =>
      split
      next => exact ⟨wrongLength, Or.inr (Or.inr rfl), rfl⟩
      next => exact ⟨nullArgument, Or.inl rfl, if_pos Option.isNone_none⟩

theorem fixedDecode_readsWithin (h : Delivered frame) (output : Option α)
    (hfields : ∀ xs : List UInt8, payloadLength.toNat = xs.length → Confined xs fields) :
    ReadsWithin frame fun frame => fixedDecode ok nullArgument wrongMessage wrongLength messageClass
      messageId payloadLength fields (some frame) output := by
  refine h.readsWithin (fun hnull _ => ?_)
    fun xs hlen => fixedDecode_confined output hlen (hfields xs)
  obtain ⟨r, -, hr⟩ := fixedDecode_null output hnull
  exact ⟨_, hr⟩

end

/-! ## UBX-NAV-PVT -/

/-- `ubx_nav_pvt_t`. -/
structure UbxNavPvt where
  iTow : UInt32
  year : UInt16
  month : UInt8
  day : UInt8
  hour : UInt8
  minute : UInt8
  second : UInt8
  valid : UInt8
  timeAccuracy : UInt32
  nanosecond : Int32
  fixType : UInt8
  flags : UInt8
  flags2 : UInt8
  satellitesUsed : UInt8
  longitude : Int32
  latitude : Int32
  heightEllipsoid : Int32
  heightMsl : Int32
  horizontalAccuracy : UInt32
  verticalAccuracy : UInt32
  velocityNorth : Int32
  velocityEast : Int32
  velocityDown : Int32
  groundSpeed : Int32
  headingMotion : Int32
  speedAccuracy : UInt32
  headingAccuracy : UInt32
  pDop : UInt16
  flags3 : UInt16
  headingVehicle : Int32
  magneticDeclination : Int16
  magneticAccuracy : UInt16
  deriving DecidableEq, Repr

/-- `ubx_nav_pvt_decode_result_t`. -/
inductive UbxNavPvtDecodeResult where
  | ok
  | nullArgument
  | wrongMessage
  | wrongLength
  deriving DecidableEq, Repr

/-- The assignments of `ubx_nav_pvt_decode`. -/
def ubxNavPvtFields (payload : Option (List UInt8)) : Run UbxNavPvt := do
  let iTow ← ubxReadU32Le payload 0
  let year ← ubxReadU16Le payload 4
  let month ← load payload 6
  let day ← load payload 7
  let hour ← load payload 8
  let minute ← load payload 9
  let second ← load payload 10
  let valid ← load payload 11
  let timeAccuracy ← ubxReadU32Le payload 12
  let nanosecond ← ubxReadI32Le payload 16
  let fixType ← load payload 20
  let flags ← load payload 21
  let flags2 ← load payload 22
  let satellitesUsed ← load payload 23
  let longitude ← ubxReadI32Le payload 24
  let latitude ← ubxReadI32Le payload 28
  let heightEllipsoid ← ubxReadI32Le payload 32
  let heightMsl ← ubxReadI32Le payload 36
  let horizontalAccuracy ← ubxReadU32Le payload 40
  let verticalAccuracy ← ubxReadU32Le payload 44
  let velocityNorth ← ubxReadI32Le payload 48
  let velocityEast ← ubxReadI32Le payload 52
  let velocityDown ← ubxReadI32Le payload 56
  let groundSpeed ← ubxReadI32Le payload 60
  let headingMotion ← ubxReadI32Le payload 64
  let speedAccuracy ← ubxReadU32Le payload 68
  let headingAccuracy ← ubxReadU32Le payload 72
  let pDop ← ubxReadU16Le payload 76
  let flags3 ← ubxReadU16Le payload 78
  -- bytes 80 to 83 are reserved
  let headingVehicle ← ubxReadI32Le payload 84
  let magneticDeclination ← ubxReadI16Le payload 88
  let magneticAccuracy ← ubxReadU16Le payload 90
  return {
    iTow, year, month, day, hour, minute, second, valid, timeAccuracy, nanosecond, fixType, flags,
    flags2, satellitesUsed, longitude, latitude, heightEllipsoid, heightMsl, horizontalAccuracy,
    verticalAccuracy, velocityNorth, velocityEast, velocityDown, groundSpeed, headingMotion,
    speedAccuracy, headingAccuracy, pDop, flags3, headingVehicle, magneticDeclination,
    magneticAccuracy }

/-- `ubx_nav_pvt_decode`. -/
def ubxNavPvtDecode (frame : Option UbxFrame) (output : Option UbxNavPvt) :
    Run (UbxNavPvtDecodeResult × Option UbxNavPvt) :=
  fixedDecode .ok .nullArgument .wrongMessage .wrongLength 0x01 0x07 92 ubxNavPvtFields frame output

/-- The record that 92 bytes stand for. -/
def UbxNavPvt.ofPayload (xs : List UInt8) : UbxNavPvt where
  iTow := u32At xs 0
  year := u16At xs 4
  month := byteAt xs 6
  day := byteAt xs 7
  hour := byteAt xs 8
  minute := byteAt xs 9
  second := byteAt xs 10
  valid := byteAt xs 11
  timeAccuracy := u32At xs 12
  nanosecond := (u32At xs 16).toInt32
  fixType := byteAt xs 20
  flags := byteAt xs 21
  flags2 := byteAt xs 22
  satellitesUsed := byteAt xs 23
  longitude := (u32At xs 24).toInt32
  latitude := (u32At xs 28).toInt32
  heightEllipsoid := (u32At xs 32).toInt32
  heightMsl := (u32At xs 36).toInt32
  horizontalAccuracy := u32At xs 40
  verticalAccuracy := u32At xs 44
  velocityNorth := (u32At xs 48).toInt32
  velocityEast := (u32At xs 52).toInt32
  velocityDown := (u32At xs 56).toInt32
  groundSpeed := (u32At xs 60).toInt32
  headingMotion := (u32At xs 64).toInt32
  speedAccuracy := u32At xs 68
  headingAccuracy := u32At xs 72
  pDop := u16At xs 76
  flags3 := u16At xs 78
  headingVehicle := (u32At xs 84).toInt32
  magneticDeclination := (u16At xs 88).toInt16
  magneticAccuracy := u16At xs 90

theorem ubxNavPvtFields_front (h : 92 ≤ xs.length) (more : List UInt8) :
    ubxNavPvtFields (some (xs ++ more)) = .ok (.ofPayload xs) := by
  unfold ubxNavPvtFields
  simp (disch := omega) only [readByte_front, readU16_front, readU32_front, readI16_front,
    readI32_front, ok_bind]
  rfl

theorem ubxNavPvtDecode_readsWithin (h : Delivered frame) (output : Option UbxNavPvt) :
    ReadsWithin frame fun frame => ubxNavPvtDecode (some frame) output :=
  fixedDecode_readsWithin h output fun _ hxs => ⟨_, ubxNavPvtFields_front (Nat.le_of_eq hxs)⟩

/-! ## UBX-TIM-TP -/

/-- `ubx_tim_tp_t`. -/
structure UbxTimTp where
  tow : UInt32
  towSub : UInt32
  quantizationError : Int32
  week : UInt16
  flags : UInt8
  referenceInfo : UInt8
  deriving DecidableEq, Repr

/-- `ubx_tim_tp_decode_result_t`. -/
inductive UbxTimTpDecodeResult where
  | ok
  | nullArgument
  | wrongMessage
  | wrongLength
  deriving DecidableEq, Repr

/-- The assignments of `ubx_tim_tp_decode`. -/
def ubxTimTpFields (payload : Option (List UInt8)) : Run UbxTimTp := do
  let tow ← ubxReadU32Le payload 0
  let towSub ← ubxReadU32Le payload 4
  let quantizationError ← ubxReadI32Le payload 8
  let week ← ubxReadU16Le payload 12
  let flags ← load payload 14
  let referenceInfo ← load payload 15
  return { tow, towSub, quantizationError, week, flags, referenceInfo }

/-- `ubx_tim_tp_decode`. -/
def ubxTimTpDecode (frame : Option UbxFrame) (output : Option UbxTimTp) :
    Run (UbxTimTpDecodeResult × Option UbxTimTp) :=
  fixedDecode .ok .nullArgument .wrongMessage .wrongLength 0x0D 0x01 16 ubxTimTpFields frame output

/-- The record that 16 bytes stand for. -/
def UbxTimTp.ofPayload (xs : List UInt8) : UbxTimTp where
  tow := u32At xs 0
  towSub := u32At xs 4
  quantizationError := (u32At xs 8).toInt32
  week := u16At xs 12
  flags := byteAt xs 14
  referenceInfo := byteAt xs 15

theorem ubxTimTpFields_front (h : 16 ≤ xs.length) (more : List UInt8) :
    ubxTimTpFields (some (xs ++ more)) = .ok (.ofPayload xs) := by
  unfold ubxTimTpFields
  simp (disch := omega) only [readByte_front, readU16_front, readU32_front, readI32_front,
    ok_bind]
  rfl

theorem ubxTimTpDecode_readsWithin (h : Delivered frame) (output : Option UbxTimTp) :
    ReadsWithin frame fun frame => ubxTimTpDecode (some frame) output :=
  fixedDecode_readsWithin h output fun _ hxs => ⟨_, ubxTimTpFields_front (Nat.le_of_eq hxs)⟩

end Ubx.Decode
