import Ubx.Decode.Meaning

/-!
# What a receiver sends

Every message of the catalogue as the receiver has it before it is put on the
wire, and its payload. `meaning_payload` says that the payload means the message
and nothing else, so what a record holds can be sent and read back.

The counted messages carry their bound: a message whose count does not fit its
count field, or whose payload does not fit a frame, cannot be built.
-/

namespace Ubx.Decode

open Lib Ubx.Stream

/-! ## Strings and blocks of a fixed length -/

theorem bytes_fields_widths {n : Nat} (v : Vector UInt8 n) :
    [v.toList].map List.length = [n] :=
  congrArg (fun m => [m]) Vector.length_toList

theorem bytes_fields_ofBytes {n : Nat} (xs : List UInt8) (h : [n].sum ≤ xs.length) :
    [(bytesAt xs 0 n).toList] = [n].splitLengths xs := by
  rw [List.sum_singleton] at h
  rw [splitLengths_one, bytesAt_toList (by omega), List.drop_zero]

theorem bytes_fields_inj {n : Nat} (v w : Vector UInt8 n) (h : [v.toList] = [w.toList]) : v = w :=
  Vector.toList_inj.mp (List.cons.inj h).1

/-- The layout of a field of `n` bytes. -/
def bytesLayout (n : Nat) : Layout (Vector UInt8 n) UInt8 where
  widths := [n]
  fields v := [v.toList]
  ofBytes xs := bytesAt xs 0 n
  widths_fields := bytes_fields_widths
  fields_inj := bytes_fields_inj
  fields_ofBytes := bytes_fields_ofBytes

theorem bytesLayout_width (n : Nat) : (bytesLayout n).width = n := Nat.add_zero n

/-- The array a string of `n` bytes is copied to. -/
theorem overwrite_string {n : Nat} (destination : Vector UInt8 (n + 1)) (v : Vector UInt8 n) :
    overwrite destination (v.toList ++ [0]) = v.push 0 := by
  apply Vector.toList_inj.mp
  rw [overwrite_toList _ (by rw [List.length_append, Vector.length_toList, List.length_singleton]),
    Vector.toList_push]

/-- A message of UBX-MON-VER: two strings, and as many more as a frame has room for. -/
structure VerMessage where
  softwareVersion : Vector UInt8 30
  hardwareVersion : Vector UInt8 10
  extensions : List (Vector UInt8 30)
  count_le : extensions.length ≤ 2183

namespace VerMessage

/-- The two strings in front. -/
def base (m : VerMessage) : List UInt8 := m.softwareVersion.toList ++ m.hardwareVersion.toList

/-- The strings one behind the other. -/
def payload (m : VerMessage) : List UInt8 := m.base ++ (bytesLayout 30).records m.extensions

theorem length_base (m : VerMessage) : m.base.length = 40 := by
  simp [base]

theorem length_payload (m : VerMessage) : m.payload.length = 40 + m.extensions.length * 30 := by
  rw [payload, List.length_append, length_base, Layout.length_records, bytesLayout_width]

/-- The length says how many extensions there are. -/
theorem count (m : VerMessage) : (m.payload.length - 40) / 30 = m.extensions.length := by
  rw [m.length_payload]
  omega

/-- The strings, each with the zero that is written behind it. -/
def ver (m : VerMessage) : UbxMonVer where
  softwareVersion := m.softwareVersion.push 0
  hardwareVersion := m.hardwareVersion.push 0
  extensionCount := UInt16.ofNat m.extensions.length

/-- What the header decoder finds is the message's record. -/
theorem ofPayload_ver (m : VerMessage) : UbxMonVer.ofPayload m.payload = m.ver := by
  have hsoftware : m.payload.take 30 = m.softwareVersion.toList := by
    rw [payload, base, List.append_assoc, List.take_left' Vector.length_toList]
  have hhardware : (m.payload.drop 30).take 10 = m.hardwareVersion.toList := by
    rw [payload, base, List.append_assoc, List.drop_left' Vector.length_toList,
      List.take_left' Vector.length_toList]
  rw [UbxMonVer.ofPayload, hsoftware, hhardware, m.count, overwrite_string, overwrite_string]
  rfl

/-- And the extensions are the message's. -/
theorem extensions_eq (m : VerMessage) :
    verExtensions m.payload m.extensions.length = m.extensions.map (·.push 0) := by
  apply List.ext_getElem
  · rw [verExtensions, List.length_map, List.length_range, List.length_map]
  · intro k hk hk'
    rw [List.length_map] at hk'
    have hrecord := (bytesLayout 30).ofBytes_behind m.length_base hk'
    rw [bytesLayout_width] at hrecord
    have hlength := m.length_payload
    have hwindow : (m.payload.drop (40 + k * 30)).take 30 = m.extensions[k].toList := by
      rw [← hrecord]
      show _ = (bytesAt (m.payload.drop (40 + k * 30)) 0 30).toList
      rw [bytesAt_toList (by rw [List.length_drop]; omega), List.drop_zero]
    simp only [verExtensions, List.getElem_map, List.getElem_range]
    rw [hwindow, overwrite_string]

end VerMessage

/-- A message of UBX-MON-RF: blocks, of which the header decoder takes the number. -/
structure RfMessage where
  reserved1 : UInt8
  reserved2 : UInt8
  blocks : List (Vector UInt8 24)
  count_le : blocks.length ≤ 255

/-- Version 0 and the number of the blocks, in front of the blocks. -/
def RfMessage.payload (m : RfMessage) : List UInt8 :=
  [0, UInt8.ofNat m.blocks.length, m.reserved1, m.reserved2] ++ (bytesLayout 24).records m.blocks

/-- A message of UBX-RXM-SFRBX. -/
structure SfrbxMessage where
  gnssId : UInt8
  satelliteId : UInt8
  signalId : UInt8
  frequencyId : UInt8
  channel : UInt8
  reserved : UInt8
  words : List UInt32
  count_le : words.length ≤ 255

namespace SfrbxMessage

/-- The header, with the count and version 2. -/
def header (m : SfrbxMessage) : UbxRxmSfrbx where
  gnssId := m.gnssId
  satelliteId := m.satelliteId
  signalId := m.signalId
  frequencyId := m.frequencyId
  wordCount := UInt8.ofNat m.words.length
  channel := m.channel
  version := 2

/-- The header in wire order, with its reserved byte, and the words. -/
def payload (m : SfrbxMessage) : List UInt8 :=
  [m.gnssId, m.satelliteId, m.signalId, m.frequencyId, UInt8.ofNat m.words.length, m.channel, 2,
    m.reserved] ++ u32Layout.records m.words

theorem count_toNat (m : SfrbxMessage) : (byteAt m.payload 4).toNat = m.words.length := by
  have hle := m.count_le
  show (UInt8.ofNat m.words.length).toNat = _
  rw [UInt8.toNat_ofNat']
  omega

theorem length_payload (m : SfrbxMessage) : m.payload.length = 8 + m.words.length * 4 := by
  rw [payload, List.length_append, Layout.length_records]
  rfl

/-- The words are found where the count and the stride put them. -/
theorem words_eq (m : SfrbxMessage) : sfrbxWords m.payload = m.words := by
  apply List.ext_getElem
  · rw [sfrbxWords, List.length_map, List.length_range, m.count_toNat]
  · intro k hk hk'
    have hrecord := @Layout.ofBytes_behind _ _ u32Layout [m.gnssId, m.satelliteId, m.signalId,
      m.frequencyId, UInt8.ofNat m.words.length, m.channel, 2, m.reserved] 8 rfl m.words k hk'
    simp only [sfrbxWords, List.getElem_map, List.getElem_range]
    rw [← hrecord]
    show u32At m.payload (8 + k * 4) = u32At (m.payload.drop (8 + k * 4)) 0
    rw [u32At_drop, Nat.add_zero]

end SfrbxMessage

/-! ## Messages -/

/-- What a receiver can send of the catalogue. -/
inductive Message where
  | ack (ack : UbxAck)
  | navPvt (pvt : UbxNavPvt) (reserved : Vector UInt8 4)
  | timTp (tp : UbxTimTp)
  | monVer (m : VerMessage)
  | monRxr (rxr : UbxMonRxr)
  | monComms (m : CommsMessage)
  | monRf (m : RfMessage)
  | rxmRawx (m : RawxMessage)
  | rxmSfrbx (m : SfrbxMessage)

namespace Message

/-- The class that the decoder of the kind tests for. -/
def messageClass : Message → UInt8
  | .ack _ => 0x05
  | .navPvt _ _ => 0x01
  | .timTp _ => 0x0D
  | .monVer _ | .monRxr _ | .monComms _ | .monRf _ => 0x0A
  | .rxmRawx _ | .rxmSfrbx _ => 0x02

/-- The id; an acknowledgement has one for each of its types. -/
def messageId : Message → UInt8
  | .ack a => if a.type = .ack then 0x01 else 0x00
  | .navPvt _ _ => 0x07
  | .timTp _ => 0x01
  | .monVer _ => 0x04
  | .monRxr _ => 0x21
  | .monComms _ => 0x36
  | .monRf _ => 0x38
  | .rxmRawx _ => 0x15
  | .rxmSfrbx _ => 0x13

/-- What the kind has between header and checksum. -/
def payload : Message → List UInt8
  | .ack a => [a.acknowledgedClass, a.acknowledgedId]
  | .navPvt pvt reserved => navPvtLayout.bytes (pvt, reserved)
  | .timTp tp => timTpLayout.bytes tp
  | .monVer m => m.payload
  | .monRxr rxr => [rxr.flags]
  | .monComms m => m.payload
  | .monRf m => m.payload
  | .rxmRawx m => m.payload
  | .rxmSfrbx m => m.payload

/-- What a host should read of it: all but the reserved bytes. -/
def reading : Message → Reading
  | .ack a => .ack a
  | .navPvt pvt _ => .navPvt pvt
  | .timTp tp => .timTp tp
  | .monVer m => .monVer m.ver (m.extensions.map (·.push 0))
  | .monRxr rxr => .monRxr rxr
  | .monComms m => .monComms m.header (m.ports.map Prod.fst)
  | .monRf m => .monRf ⟨0, UInt8.ofNat m.blocks.length⟩
  | .rxmRawx m => .rxmRawx m.header (m.measurements.map Prod.fst)
  | .rxmSfrbx m => .rxmSfrbx m.header m.words

end Message

/-- **What was sent is what it means.** The payload of a message means the message:
every record, with every field, and nothing of what is reserved. -/
theorem meaning_payload (m : Message) :
    meaning m.messageClass m.messageId m.payload = some m.reading := by
  cases m with
  | ack a =>
    obtain ⟨type, c, i⟩ := a
    have hshape : AckShape 0x05 (if type = .ack then 0x01 else 0x00) [c, i] := by
      cases type with
      | ack => exact ⟨rfl, Or.inl rfl, rfl⟩
      | nak => exact ⟨rfl, Or.inr rfl, rfl⟩
    refine (meaning_ack hshape).trans ?_
    cases type with
    | ack => rfl
    | nak => rfl
  | navPvt pvt reserved =>
    have hback := congrArg Prod.fst (navPvtLayout.ofBytes_bytes (pvt, reserved) [])
    rw [List.append_nil] at hback
    refine (meaning_navPvt ⟨rfl, rfl, navPvtLayout.length_bytes (pvt, reserved)⟩).trans ?_
    exact congrArg (fun r => some (Reading.navPvt r)) hback
  | timTp tp =>
    have hback := timTpLayout.ofBytes_bytes tp []
    rw [List.append_nil] at hback
    refine (meaning_timTp ⟨rfl, rfl, timTpLayout.length_bytes tp⟩).trans ?_
    exact congrArg (fun r => some (Reading.timTp r)) hback
  | monVer m =>
    have hshape : MonVerShape 0x0A 0x04 m.payload := by
      refine ⟨rfl, rfl, ?_⟩
      rw [m.count]
      exact m.length_payload
    refine (meaning_monVer hshape).trans ?_
    rw [m.count, m.ofPayload_ver, m.extensions_eq]
    rfl
  | monRxr rxr => exact meaning_monRxr ⟨rfl, rfl, rfl⟩
  | monComms m =>
    have hversion : byteAt m.payload 0 = 0 := congrArg UbxMonComms.version m.ofPayload_header
    refine (meaning_monComms ⟨rfl, rfl, hversion, ?_⟩).trans ?_
    · rw [m.count_toNat]
      exact m.length_payload
    · rw [m.ofPayload_header]
      congr 2
      apply List.ext_getElem
      · rw [commsPorts, List.length_map, List.length_range, List.length_map, m.count_toNat]
      · intro k hk hk'
        rw [List.length_map] at hk'
        simp only [commsPorts, List.getElem_map, List.getElem_range]
        exact m.readAt_port hk'
  | monRf m =>
    have hle := m.count_le
    have hcount : (byteAt m.payload 1).toNat = m.blocks.length := by
      show (UInt8.ofNat m.blocks.length).toNat = _
      rw [UInt8.toNat_ofNat']
      omega
    refine meaning_monRf ⟨rfl, rfl, rfl, ?_⟩
    rw [Message.payload, hcount, RfMessage.payload, List.length_append, Layout.length_records,
      bytesLayout_width]
    rfl
  | rxmRawx m =>
    have hversion : byteAt m.payload 13 = 1 := congrArg UbxRxmRawx.version m.ofPayload_header
    have hcount : (byteAt m.payload 11).toNat = m.measurements.length := by
      rw [← m.count_toNat, ← m.ofPayload_header]
      rfl
    refine (meaning_rxmRawx ⟨rfl, rfl, hversion, ?_⟩).trans ?_
    · rw [hcount]
      exact m.length_payload
    · rw [m.ofPayload_header]
      congr 2
      apply List.ext_getElem
      · rw [rawxMeasurements, List.length_map, List.length_range, List.length_map, hcount]
      · intro k hk hk'
        rw [List.length_map] at hk'
        simp only [rawxMeasurements, List.getElem_map, List.getElem_range]
        exact m.ofPayload_measurement hk'
  | rxmSfrbx m =>
    have hversion : byteAt m.payload 6 = 2 := rfl
    refine (meaning_rxmSfrbx ⟨rfl, rfl, hversion, ?_⟩).trans ?_
    · rw [m.count_toNat]
      exact m.length_payload
    · rw [m.words_eq]
      rfl

end Ubx.Decode
