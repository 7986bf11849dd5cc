import Ubx.Decode.MonWire

/-!
# The signed fields of `src/ubx_mon.c`

The decoders of UBX-MON-RF blocks and of UBX-MON-SYS. Both have `int8_t` fields,
and both give `ubx_read_i8` the byte itself (`ubx_read_i8(block[17])`,
`ubx_read_i8(frame->payload[18])`) where it takes the address of one. The sibling
decoder of UBX-RXM-RAWX passes the address (`ubx_read_i8(p + 10U)`).

The byte is turned into a pointer, which refers to no object, and is read
through. So neither decoder returns on any message that it accepts:
`rf_block_faults` and `sys_faults`. What was to be decoded is stated beside them
(`RfBlockFaithful`, `SysFaithful`), and is never met.
-/

namespace Ubx.Decode

open Lib Ubx.Stream

/-- A byte given where a `const uint8_t *` is taken: the integer is converted to
a pointer, and no object of the program is there. -/
def pointerOfValue (_value : UInt8) : Option (List UInt8) := none

/-- Reading through it has no defined result. -/
theorem ubxReadI8_pointerOfValue (value : UInt8) :
    ubxReadI8 (pointerOfValue value) 0 = .error (.noObject 0) := rfl

/-! ## UBX-MON-RF blocks -/

/-- `ubx_mon_rf_block_t`. -/
structure UbxMonRfBlock where
  blockId : UInt8
  flags : UInt8
  jammingState : UInt8
  antennaStatus : UInt8
  antennaPower : UInt8
  postStatus : UInt32
  noisePerMs : UInt16
  agcCount : UInt16
  cwSuppression : UInt8
  iOffset : Int8
  iMagnitude : UInt8
  qOffset : Int8
  qMagnitude : UInt8
  gnssBand : UInt8
  deriving DecidableEq, Repr

/-- The assignments of `ubx_mon_rf_block_decode`; `block` is the offset of the block. -/
def ubxMonRfBlockFields (payload : Option (List UInt8)) (block : Nat) : Run UbxMonRfBlock := do
  let blockId ← load payload block
  let flags ← load payload (block + 1)
  let jammingFlags ← load payload (block + 1)
  let jammingState := jammingFlags &&& 0x03
  let antennaStatus ← load payload (block + 2)
  let antennaPower ← load payload (block + 3)
  let postStatus ← ubxReadU32Le payload (block + 4)
  let noisePerMs ← ubxReadU16Le payload (block + 12)
  let agcCount ← ubxReadU16Le payload (block + 14)
  let cwSuppression ← load payload (block + 16)
  -- the byte and not its address
  let iByte ← load payload (block + 17)
  let iOffset ← ubxReadI8 (pointerOfValue iByte) 0
  let iMagnitude ← load payload (block + 18)
  let qByte ← load payload (block + 19)
  let qOffset ← ubxReadI8 (pointerOfValue qByte) 0
  let qMagnitude ← load payload (block + 20)
  let gnssBand ← load payload (block + 21)
  return {
    blockId, flags, jammingState, antennaStatus, antennaPower, postStatus, noisePerMs, agcCount,
    cwSuppression, iOffset, iMagnitude, qOffset, qMagnitude, gnssBand }

/-- `ubx_mon_rf_block_decode`. -/
def ubxMonRfBlockDecode (frame : Option UbxFrame) (blockIndex : UInt8)
    (output : Option UbxMonRfBlock) : Run (UbxMonDecodeResult × Option UbxMonRfBlock) :=
  decodeInto .nullArgument .ok output (ubxMonRfValidate frame) fun blockCount _ => do
    if blockIndex ≥ blockCount then
      return .error .indexOutOfRange
    let frame ← deref frame
    let offset := 4 + blockIndex.toNat * 24
    let output ← ubxMonRfBlockFields frame.payload offset
    return .ok output

/-- The block that the bytes at an offset stand for. -/
def UbxMonRfBlock.ofPayload (xs : List UInt8) (block : Nat) : UbxMonRfBlock where
  blockId := byteAt xs block
  flags := byteAt xs (block + 1)
  jammingState := byteAt xs (block + 1) &&& 0x03
  antennaStatus := byteAt xs (block + 2)
  antennaPower := byteAt xs (block + 3)
  postStatus := u32At xs (block + 4)
  noisePerMs := u16At xs (block + 12)
  agcCount := u16At xs (block + 14)
  cwSuppression := byteAt xs (block + 16)
  iOffset := (byteAt xs (block + 17)).toInt8
  iMagnitude := byteAt xs (block + 18)
  qOffset := (byteAt xs (block + 19)).toInt8
  qMagnitude := byteAt xs (block + 20)
  gnssBand := byteAt xs (block + 21)

/-- What is asked of the block decoder on an accepted frame and a block of it: it
returns OK with the block's fields, and reads nothing but the header and the
window of the block. -/
def RfBlockFaithful (frame : UbxFrame) (k : UInt8) : Prop :=
  ∀ (cells : List UInt8) (output : UbxMonRfBlock), frame.payload = some cells →
    ubxMonRfBlockDecode (some frame) k (some output)
      = .ok (.ok, some (.ofPayload cells (4 + k.toNat * 24))) ∧
    ∀ cells' : List UInt8, cells'.take 4 = cells.take 4 →
      (cells'.drop (4 + k.toNat * 24)).take 24 = (cells.drop (4 + k.toNat * 24)).take 24 →
      ubxMonRfBlockDecode (some (frame.withPayload (some cells'))) k (some output)
        = .ok (.ok, some (.ofPayload cells (4 + k.toNat * 24)))

/-! ## UBX-MON-SYS -/

/-- `ubx_mon_sys_t`. -/
structure UbxMonSys where
  version : UInt8
  bootType : UInt8
  cpuLoad : UInt8
  cpuLoadMax : UInt8
  memoryUsage : UInt8
  memoryUsageMax : UInt8
  ioUsage : UInt8
  ioUsageMax : UInt8
  runTime : UInt32
  noticeCount : UInt16
  warningCount : UInt16
  errorCount : UInt16
  temperature : Int8
  deriving DecidableEq, Repr

/-- The assignments of `ubx_mon_sys_decode`. -/
def ubxMonSysFields (payload : Option (List UInt8)) : Run UbxMonSys := do
  let version ← load payload 0
  let bootType ← load payload 1
  let cpuLoad ← load payload 2
  let cpuLoadMax ← load payload 3
  let memoryUsage ← load payload 4
  let memoryUsageMax ← load payload 5
  let ioUsage ← load payload 6
  let ioUsageMax ← load payload 7
  let runTime ← ubxReadU32Le payload 8
  let noticeCount ← ubxReadU16Le payload 12
  let warningCount ← ubxReadU16Le payload 14
  let errorCount ← ubxReadU16Le payload 16
  -- the byte and not its address
  let byte ← load payload 18
  let temperature ← ubxReadI8 (pointerOfValue byte) 0
  return {
    version, bootType, cpuLoad, cpuLoadMax, memoryUsage, memoryUsageMax, ioUsage, ioUsageMax,
    runTime, noticeCount, warningCount, errorCount, temperature }

/-- `ubx_mon_sys_decode`. -/
def ubxMonSysDecode (frame : Option UbxFrame) (output : Option UbxMonSys) :
    Run (UbxMonDecodeResult × Option UbxMonSys) :=
  decodeInto .nullArgument .ok output (return ubxMonValidateMessage frame 0x39) fun _ _ => do
    let frame ← deref frame
    if frame.payloadLength ≠ 24 then
      return .error .wrongLength
    let version ← load frame.payload 0
    if version ≠ 0x01 then
      return .error .unsupportedVersion
    let output ← ubxMonSysFields frame.payload
    return .ok output

/-- The record that 24 bytes stand for. -/
def UbxMonSys.ofPayload (xs : List UInt8) : UbxMonSys where
  version := byteAt xs 0
  bootType := byteAt xs 1
  cpuLoad := byteAt xs 2
  cpuLoadMax := byteAt xs 3
  memoryUsage := byteAt xs 4
  memoryUsageMax := byteAt xs 5
  ioUsage := byteAt xs 6
  ioUsageMax := byteAt xs 7
  runTime := u32At xs 8
  noticeCount := u16At xs 12
  warningCount := u16At xs 14
  errorCount := u16At xs 16
  temperature := (byteAt xs 18).toInt8

/-- What is asked of the system decoder on a frame of 24 bytes with version 1: it
returns OK with the fields, and reads nothing but these bytes. -/
def SysFaithful (frame : UbxFrame) : Prop :=
  ∀ (cells : List UInt8) (output : UbxMonSys), frame.payload = some cells →
    ubxMonSysDecode (some frame) (some output) = .ok (.ok, some (.ofPayload cells)) ∧
    ∀ more, ubxMonSysDecode (some (frame.withPayload (some (cells.take 24 ++ more)))) (some output)
      = .ok (.ok, some (.ofPayload cells))

/-! ## What the decoders do -/

section

variable {f : UbxFrame} {xs more : List UInt8}

/-- Up to the first signed field all is well. -/
theorem ubxMonRfBlockFields_faults {block : Nat} (h : block + 24 ≤ xs.length) :
    ubxMonRfBlockFields (some (xs ++ more)) block = .error (.noObject 0) := by
  unfold ubxMonRfBlockFields
  simp (disch := omega) only [readByte_front, readU16_front, readU32_front, ok_bind,
    ubxReadI8_pointerOfValue]
  rfl

theorem ubxMonSysFields_faults (h : 24 ≤ xs.length) :
    ubxMonSysFields (some (xs ++ more)) = .error (.noObject 0) := by
  unfold ubxMonSysFields
  simp (disch := omega) only [readByte_front, readU16_front, readU32_front, ok_bind,
    ubxReadI8_pointerOfValue]
  rfl

end

/-- A decoder whose reads fault does not return. -/
theorem decodeInto_faults {ρ κ α : Type} {nullArgument ok : ρ} {checked : κ} {out : α}
    {read : κ → α → Run (Except ρ α)} {e : Fault} (h : read checked out = .error e) :
    decodeInto nullArgument ok (some out) (.ok (.ok checked)) read = .error e := by
  show (read checked out >>= _) = _
  rw [h]
  rfl

/-- **No block is decoded**, of any accepted frame. -/
theorem rf_block_faults {frame : UbxFrame} (hreadable : frame.Readable) {header h : UbxMonRf}
    (haccepted : ubxMonRfDecode (some frame) (some header) = .ok (.ok, some h)) {k : UInt8}
    (hk : k < h.blockCount) (output : UbxMonRfBlock) :
    ubxMonRfBlockDecode (some frame) k (some output) = .error (.noObject 0) := by
  have hall := readable_some hreadable
  rcases @ubxMonCountedValidate_cases 0x38 4 24 _ hall (by simp)
    with ⟨r, hr, hrefuse⟩ | ⟨f, xs, more, hframe, -, hcount, haccept⟩
  · exact absurd haccepted (decodeInto_not_ok hrefuse hr)
  · cases hframe
    have hheader : 4 ≤ xs.length := by
      rw [hcount]
      exact Nat.le_add_right 4 _
    have hblocks : h.blockCount = byteAt xs 1 := by
      have hread : ubxMonRfDecode (some (f.withPayload (some (xs ++ more)))) (some header)
          = .ok (.ok, some ⟨byteAt xs 0, byteAt xs 1⟩) := by
        rw [ubxMonRfDecode, ubxMonRfValidate, haccept]
        apply decodeInto_read
        rw [deref_some, ok_bind, UbxFrame.withPayload_payload, readByte_front (by omega), ok_bind]
        rfl
      rw [hread] at haccepted
      cases haccepted
      rfl
    rw [hblocks] at hk
    have hfits : 4 + k.toNat * 24 + 24 ≤ xs.length :=
      record_fits hcount (UInt8.lt_iff_toNat_lt.mp hk)
    rw [ubxMonRfBlockDecode, ubxMonRfValidate, haccept]
    apply decodeInto_faults
    rw [if_neg (UInt8.not_le.mpr hk)]
    show (deref _ >>= _) = _
    rw [deref_some, ok_bind, UbxFrame.withPayload_payload]
    dsimp only
    rw [ubxMonRfBlockFields_faults hfits]
    rfl

/-- **No system status is decoded**, of any frame of 24 bytes with version 1. -/
theorem sys_faults {frame : UbxFrame} {cells : List UInt8} (hclass : frame.messageClass = 0x0A)
    (hid : frame.messageId = 0x39) (hlength : frame.payloadLength = 24)
    (hpayload : frame.payload = some cells) (hcells : 24 ≤ cells.length)
    (hversion : byteAt cells 0 = 1) (output : UbxMonSys) :
    ubxMonSysDecode (some frame) (some output) = .error (.noObject 0) := by
  have hmessage : ¬(frame.messageClass ≠ 0x0A ∨ frame.messageId ≠ 0x39) :=
    right_message hclass hid
  have hself : frame.withPayload (some cells) = frame := by
    rw [← hpayload]
    rfl
  have hvalidate := @ubxMonValidateMessage_some frame 0x39 cells
  rw [hself, if_neg hmessage] at hvalidate
  have hbyte := readByte_front (show 0 < cells.length by omega) []
  have hfields := @ubxMonSysFields_faults cells [] hcells
  rw [List.append_nil] at hbyte hfields
  rw [ubxMonSysDecode, hvalidate]
  apply decodeInto_faults
  rw [deref_some, ok_bind, if_neg (not_not.mpr hlength), hpayload, hbyte, ok_bind,
    if_neg (not_not.mpr hversion), hfields]
  rfl

/-- An accepted frame has a payload. -/
theorem rf_payload {frame : UbxFrame} {header h : UbxMonRf}
    (haccepted : ubxMonRfDecode (some frame) (some header) = .ok (.ok, some h)) :
    ∃ cells, frame.payload = some cells := by
  cases hpayload : frame.payload with
  | none =>
    rw [ubxMonRfDecode, ubxMonRfValidate, ubxMonCountedValidate_null hpayload,
      decodeInto_error] at haccepted
    cases haccepted
  | some cells => exact ⟨cells, rfl⟩

/-- **Neither decoder is ever faithful.** On every accepted UBX-MON-RF frame and
every block of it, and on every UBX-MON-SYS frame of 24 bytes with version 1, the
decoder reads through a pointer to no object, so it does not return OK. -/
theorem signed_fields_fault {frame : UbxFrame} (hreadable : frame.Readable) :
    (∀ (header h : UbxMonRf) (k : UInt8),
      ubxMonRfDecode (some frame) (some header) = .ok (.ok, some h) → k < h.blockCount →
      (∀ output, ubxMonRfBlockDecode (some frame) k (some output) = .error (.noObject 0)) ∧
      ¬ RfBlockFaithful frame k) ∧
    ∀ cells : List UInt8, frame.messageClass = 0x0A → frame.messageId = 0x39 →
      frame.payloadLength = 24 → frame.payload = some cells → byteAt cells 0 = 1 →
      (∀ output, ubxMonSysDecode (some frame) (some output) = .error (.noObject 0)) ∧
      ¬ SysFaithful frame := by
  constructor
  · intro header h k haccepted hk
    have hfaults := rf_block_faults hreadable haccepted hk
    refine ⟨hfaults, ?_⟩
    intro hfaithful
    obtain ⟨cells, hpayload⟩ := rf_payload haccepted
    have hok := (hfaithful cells (.ofPayload [] 0) hpayload).1
    rw [hfaults] at hok
    cases hok
  · intro cells hclass hid hlength hpayload hversion
    have hcells : 24 ≤ cells.length := by
      have hle := hreadable cells hpayload
      rwa [hlength] at hle
    have hfaults := sys_faults hclass hid hlength hpayload hcells hversion
    refine ⟨hfaults, ?_⟩
    intro hfaithful
    have hok := (hfaithful cells (.ofPayload []) hpayload).1
    rw [hfaults] at hok
    cases hok

/-- A frame of one block, and a system status at 40 degrees. -/
theorem signed_fields_fault_one :
    (∀ output, ubxMonRfBlockDecode
        (some ⟨0x0A, 0x38, 28, some ([0, 1, 0, 0] ++ List.replicate 24 200)⟩) 0 (some output)
      = .error (.noObject 0)) ∧
    ∀ output, ubxMonSysDecode
        (some ⟨0x0A, 0x39, 24, some ([1] ++ List.replicate 17 0 ++ [40, 0, 0, 0, 0, 0])⟩)
        (some output) = .error (.noObject 0) := by
  constructor
  · have hreadable : UbxFrame.Readable
        ⟨0x0A, 0x38, 28, some ([0, 1, 0, 0] ++ List.replicate 24 200)⟩ := by
      intro cells hcells
      cases hcells
      simp
    exact ((signed_fields_fault hreadable).1 ⟨0, 0⟩ ⟨0, 1⟩ 0 rfl (by simp)).1
  · have hreadable : UbxFrame.Readable
        ⟨0x0A, 0x39, 24, some ([1] ++ List.replicate 17 0 ++ [40, 0, 0, 0, 0, 0])⟩ := by
      intro cells hcells
      cases hcells
      simp
    exact ((signed_fields_fault hreadable).2 _ rfl rfl rfl rfl rfl).1

/-- The first block of an accepted frame of one block is not decoded, nor is a
system status of version 1. -/
theorem signed_fields_counterexample :
    (∃ (frame : UbxFrame) (h : UbxMonRf), frame.Readable ∧
      ubxMonRfDecode (some frame) (some ⟨0, 0⟩) = .ok (.ok, some h) ∧ 0 < h.blockCount ∧
      ¬ RfBlockFaithful frame 0) ∧
    ∃ (frame : UbxFrame) (cells : List UInt8), frame.messageClass = 0x0A ∧
      frame.messageId = 0x39 ∧ frame.payloadLength = 24 ∧ frame.payload = some cells ∧
      cells.length = 24 ∧ byteAt cells 0 = 1 ∧ ¬ SysFaithful frame := by
  constructor
  · refine ⟨⟨0x0A, 0x38, 28, some ([0, 1, 0, 0] ++ List.replicate 24 200)⟩, ⟨0, 1⟩, ?_, rfl,
      by simp, ?_⟩
    · intro cells hcells
      cases hcells
      simp
    · intro hfaithful
      have hok := (hfaithful _ (.ofPayload [] 0) rfl).1
      have hfaults : ubxMonRfBlockDecode
          (some ⟨0x0A, 0x38, 28, some ([0, 1, 0, 0] ++ List.replicate 24 200)⟩) 0
          (some (.ofPayload [] 0)) = .error (.noObject 0) := rfl
      rw [hfaults] at hok
      cases hok
  · refine ⟨⟨0x0A, 0x39, 24, some ([1] ++ List.replicate 17 0 ++ [40, 0, 0, 0, 0, 0])⟩, _, rfl, rfl,
      rfl, rfl, by simp, rfl, ?_⟩
    intro hfaithful
    have hok := (hfaithful _ (.ofPayload []) rfl).1
    have hfaults : ubxMonSysDecode
        (some ⟨0x0A, 0x39, 24, some ([1] ++ List.replicate 17 0 ++ [40, 0, 0, 0, 0, 0])⟩)
        (some (.ofPayload [])) = .error (.noObject 0) := rfl
    rw [hfaults] at hok
    cases hok

end Ubx.Decode
