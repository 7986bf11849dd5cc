import Ubx.Decode.FixedWire
import Ubx.Decode.MonWire
import Ubx.Decode.NullPayload
import Ubx.Decode.RxmWire

/-!
# What a frame means

The decoders one by one were translated from their C functions; here is what
they are together. `meaning` is a catalogue of messages: for a class, an id and
the payload bytes, what they say, or nothing. `Reads` is what a caller sees who
runs a decoder, and where the message has records, its record decoder at every
index.

`decoders_mean` says that the two are the same on every readable frame: the
decoders read off a frame what the catalogue says it means and nothing else, so
no frame is two messages, and one that means nothing is refused by all of them.

The signed fields of UBX-MON-RF blocks and of UBX-MON-SYS are not decoded at
all (`signed_fields_fault`), so the catalogue has the header of the one and not
the other.
-/

namespace Ubx.Decode

open Lib Ubx.Stream

/-! ## Calls that are accepted under a condition -/

section

variable {ρ κ α : Type} {ok nullArgument : ρ} {accepts : Prop}

/-- A decoder's call: accepted with one value under a condition, and refused
without it. -/
structure Exactly (ok : ρ) (output : α) (accepts : Prop) (value : α)
    (call : Run (ρ × Option α)) : Prop where
  accepted : accepts → call = .ok (ok, some value)
  refused : ¬ accepts → Refuses ok (some output) call

/-- A validator's verdict under the same condition. -/
structure Validates (ok : ρ) (accepts : Prop) (checked : κ) (verdict : Run (Except ρ κ)) :
    Prop where
  accepted : accepts → verdict = .ok (.ok checked)
  refused : ¬ accepts → ∃ r, r ≠ ok ∧ verdict = .ok (.error r)

theorem Refuses.not_ok {output output' : Option α} {call : Run (ρ × Option α)}
    (h : Refuses ok output call) : call ≠ .ok (ok, output') := by
  rintro rfl
  obtain ⟨r, hr, hcall⟩ := h
  cases hcall
  exact hr rfl

/-- An accepted value is the one. -/
theorem Exactly.value_eq {output value v : α} {call : Run (ρ × Option α)}
    (h : Exactly ok output accepts value call) (hcall : call = .ok (ok, some v)) :
    accepts ∧ v = value := by
  by_cases haccepts : accepts
  · have haccepted := h.accepted haccepts
    rw [hcall] at haccepted
    cases haccepted
    exact ⟨haccepts, rfl⟩
  · exact absurd hcall (h.refused haccepts).not_ok

/-- A decoder refuses what its validator does. -/
theorem Validates.exactly {checked : κ} {validate : Run (Except ρ κ)}
    {read : κ → α → Run (Except ρ α)} {output value : α}
    (h : Validates ok accepts checked validate)
    (hread : accepts → validate = .ok (.ok checked) →
      decodeInto nullArgument ok (some output) validate read = .ok (ok, some value)) :
    Exactly ok output accepts value (decodeInto nullArgument ok (some output) validate read) where
  accepted haccepts := hread haccepts (h.accepted haccepts)
  refused hnot := by
    obtain ⟨r, hr, hrefused⟩ := h.refused hnot
    rw [hrefused]
    exact ⟨r, hr, decodeInto_error⟩

end

/-! ## What the tests of a frame come to -/

/-- The frame's payload is these bytes, and they stand in front of its buffer. -/
structure Holds (frame : UbxFrame) (xs : List UInt8) : Prop where
  length : frame.payloadLength.toNat = xs.length
  payload : ∃ more, frame = frame.withPayload (some (xs ++ more))

variable {frame : UbxFrame} {xs : List UInt8}

theorem Holds.length_iff (h : Holds frame xs) (n : UInt16) :
    frame.payloadLength = n ↔ xs.length = n.toNat := by
  rw [← h.length, UInt16.toNat_inj]

/-- The two tests of `fixedDecode` are its condition. -/
theorem fixedDecode_exactly {ρ α : Type} {ok nullArgument wrongMessage wrongLength : ρ}
    {messageClass messageId : UInt8} {payloadLength : UInt16}
    {fields : Option (List UInt8) → Run α} {value : α} (h : Holds frame xs)
    (hmessage : wrongMessage ≠ ok) (hlength : wrongLength ≠ ok)
    (hfields : payloadLength.toNat ≤ xs.length → ∀ more, fields (some (xs ++ more)) = .ok value)
    (output : α) :
    Exactly ok output
      (frame.messageClass = messageClass ∧ frame.messageId = messageId ∧
        xs.length = payloadLength.toNat) value
      (fixedDecode ok nullArgument wrongMessage wrongLength messageClass messageId payloadLength
        fields (some frame) (some output)) where
  accepted := by
    intro hshape
    obtain ⟨hclass, hid, hxs⟩ := hshape
    obtain ⟨more, hframe⟩ := h.payload
    have hpayload : frame.payload = some (xs ++ more) := congrArg UbxFrame.payload hframe
    exact fixedDecode_ok hclass hid ((h.length_iff _).mpr hxs) hpayload
      (hfields (Nat.le_of_eq hxs.symm) more) output
  refused := by
    intro hnot
    unfold fixedDecode
    dsimp only
    by_cases hdiffers : frame.messageClass ≠ messageClass ∨ frame.messageId ≠ messageId
    · exact ⟨wrongMessage, hmessage, if_pos hdiffers⟩
    · have hsame := hdiffers
      rw [not_or, not_not, not_not] at hsame
      have hshape : frame.payloadLength ≠ payloadLength := by
        intro heq
        exact hnot ⟨hsame.1, hsame.2, (h.length_iff _).mp heq⟩
      exact ⟨wrongLength, hlength, (if_neg hdiffers).trans (if_pos hshape)⟩

/-- What a validator of counted UBX-MON records asks for. -/
theorem ubxMonCountedValidate_validates (h : Holds frame xs) (messageId : UInt8)
    {headerLength : UInt16} (recordLength : Nat) (hheader : 2 ≤ headerLength.toNat) :
    Validates .ok (frame.messageClass = 0x0A ∧ frame.messageId = messageId ∧ byteAt xs 0 = 0 ∧
        xs.length = headerLength.toNat + (byteAt xs 1).toNat * recordLength) (byteAt xs 1)
      (ubxMonCountedValidate messageId headerLength recordLength (some frame)) := by
  obtain ⟨more, hframe⟩ := h.payload
  have hfront := @ubxMonCountedValidate_front frame xs messageId headerLength recordLength
    h.length hheader more
  rw [← hframe] at hfront
  rw [hfront]
  constructor
  · intro hshape
    obtain ⟨hclass, hid, hversion, hexpected⟩ := hshape
    have hshort : ¬ frame.payloadLength < headerLength := by
      rw [UInt16.not_lt, UInt16.le_iff_toNat_le, h.length, hexpected]
      exact Nat.le_add_right _ _
    rw [if_neg (right_message hclass hid), if_neg hshort, if_neg (not_not.mpr hversion),
      if_neg (not_not.mpr (h.length.trans hexpected))]
  · intro hnot
    split
    next => exact ⟨.wrongMessage, by simp, rfl⟩
    next hmessage =>
      split
      next => exact ⟨.wrongLength, by simp, rfl⟩
      next =>
        split
        next => exact ⟨.unsupportedVersion, by simp, rfl⟩
        next hversion =>
          split
          next => exact ⟨.malformedPayload, by simp, rfl⟩
          next hexpected =>
            rw [not_or, not_not, not_not] at hmessage
            exact absurd ⟨hmessage.1, hmessage.2, not_not.mp hversion,
              h.length.symm.trans (not_not.mp hexpected)⟩ hnot

/-- What a validator of counted UBX-RXM records asks for. -/
theorem ubxRxmCountedValidate_validates (h : Holds frame xs) (messageId version : UInt8)
    {headerLength : UInt16} {versionOffset countOffset : Nat} (recordLength : Nat)
    (hversion : versionOffset < headerLength.toNat) (hcount : countOffset < headerLength.toNat) :
    Validates .ok (frame.messageClass = 0x02 ∧ frame.messageId = messageId ∧
        byteAt xs versionOffset = version ∧
        xs.length = headerLength.toNat + (byteAt xs countOffset).toNat * recordLength) ()
      (ubxRxmCountedValidate messageId headerLength versionOffset version countOffset recordLength
        (some frame)) := by
  obtain ⟨more, hframe⟩ := h.payload
  have hfront := @ubxRxmCountedValidate_front frame xs messageId version headerLength versionOffset
    countOffset recordLength h.length hversion hcount more
  rw [← hframe] at hfront
  rw [hfront]
  constructor
  · intro hshape
    obtain ⟨hclass, hid, hfound, hexpected⟩ := hshape
    have hshort : ¬ frame.payloadLength < headerLength := by
      rw [UInt16.not_lt, UInt16.le_iff_toNat_le, h.length, hexpected]
      exact Nat.le_add_right _ _
    rw [if_neg (right_message hclass hid), if_neg hshort, if_neg (not_not.mpr hfound),
      if_neg (not_not.mpr (h.length.trans hexpected))]
  · intro hnot
    split
    next => exact ⟨.wrongMessage, by simp, rfl⟩
    next hmessage =>
      split
      next => exact ⟨.wrongLength, by simp, rfl⟩
      next =>
        split
        next => exact ⟨.unsupportedVersion, by simp, rfl⟩
        next hfound =>
          split
          next => exact ⟨.wrongLength, by simp, rfl⟩
          next hexpected =>
            rw [not_or, not_not, not_not] at hmessage
            exact absurd ⟨hmessage.1, hmessage.2, not_not.mp hfound,
              h.length.symm.trans (not_not.mp hexpected)⟩ hnot

/-- What the validator of UBX-MON-VER asks for. -/
theorem ubxMonVerValidate_validates (h : Holds frame xs) {n : Nat}
    (hn : n = (xs.length - 40) / 30) :
    Validates .ok (frame.messageClass = 0x0A ∧ frame.messageId = 0x04 ∧ xs.length = 40 + n * 30)
      (UInt16.ofNat n) (ubxMonVerValidate (some frame)) := by
  obtain ⟨more, hframe⟩ := h.payload
  constructor
  · intro hshape
    obtain ⟨hclass, hid, hlength⟩ := hshape
    rcases @ubxMonVerValidate_length frame xs more hclass hid h.length
      with ⟨count, hcount, haccept⟩ | ⟨hbad, -⟩
    · rw [← hframe] at haccept
      rw [haccept, show n = count.toNat by omega, UInt16.ofNat_toNat]
    · exact absurd ⟨n, by omega⟩ hbad
  · intro hnot
    by_cases hmessage : frame.messageClass = 0x0A ∧ frame.messageId = 0x04
    · obtain ⟨hclass, hid⟩ := hmessage
      rcases @ubxMonVerValidate_length frame xs more hclass hid h.length
        with ⟨count, hcount, -⟩ | ⟨-, hrefused⟩
      · exact absurd ⟨hclass, hid, by omega⟩ hnot
      · rwa [← hframe] at hrefused
    · have hdiffers : frame.messageClass ≠ 0x0A ∨ frame.messageId ≠ 0x04 :=
        not_and_or.mp hmessage
      have hfront := @ubxMonVerValidate_front frame xs more
      rw [← hframe, if_pos hdiffers] at hfront
      exact ⟨.wrongMessage, by simp, hfront⟩

/-! ## The catalogue -/

section

variable (messageClass messageId : UInt8) (xs : List UInt8)

/-! What makes class, id and payload a message. -/

/-- Two bytes, under either of the two ids. -/
abbrev AckShape : Prop :=
  messageClass = 0x05 ∧ (messageId = 0x01 ∨ messageId = 0x00) ∧ xs.length = 2

/-- 92 bytes. -/
abbrev NavPvtShape : Prop := messageClass = 0x01 ∧ messageId = 0x07 ∧ xs.length = 92

/-- 16 bytes. -/
abbrev TimTpShape : Prop := messageClass = 0x0D ∧ messageId = 0x01 ∧ xs.length = 16

/-- There are as many extensions as the length has room for. -/
abbrev MonVerShape : Prop :=
  messageClass = 0x0A ∧ messageId = 0x04 ∧ xs.length = 40 + (xs.length - 40) / 30 * 30

/-- One byte. -/
abbrev MonRxrShape : Prop := messageClass = 0x0A ∧ messageId = 0x21 ∧ xs.length = 1

/-- Version 0, and the ports that are counted. -/
abbrev MonCommsShape : Prop :=
  messageClass = 0x0A ∧ messageId = 0x36 ∧ byteAt xs 0 = 0 ∧
    xs.length = 8 + (byteAt xs 1).toNat * 40

/-- Version 0, and the blocks that are counted. -/
abbrev MonRfShape : Prop :=
  messageClass = 0x0A ∧ messageId = 0x38 ∧ byteAt xs 0 = 0 ∧
    xs.length = 4 + (byteAt xs 1).toNat * 24

/-- Version 1, and the measurements that are counted. -/
abbrev RxmRawxShape : Prop :=
  messageClass = 0x02 ∧ messageId = 0x15 ∧ byteAt xs 13 = 1 ∧
    xs.length = 16 + (byteAt xs 11).toNat * 32

/-- Version 2, and the words that are counted. -/
abbrev RxmSfrbxShape : Prop :=
  messageClass = 0x02 ∧ messageId = 0x13 ∧ byteAt xs 6 = 2 ∧
    xs.length = 8 + (byteAt xs 4).toNat * 4

end

/-- What can be read off a frame: a record, and the records counted in it. -/
inductive Reading where
  | ack (ack : UbxAck)
  | navPvt (pvt : UbxNavPvt)
  | timTp (tp : UbxTimTp)
  | monVer (ver : UbxMonVer) (extensions : List (Vector UInt8 31))
  | monRxr (rxr : UbxMonRxr)
  | monComms (comms : UbxMonComms) (ports : List UbxMonCommsPort)
  | monRf (rf : UbxMonRf)
  | rxmRawx (rawx : UbxRxmRawx) (measurements : List UbxRxmRawxMeasurement)
  | rxmSfrbx (sfrbx : UbxRxmSfrbx) (words : List UInt32)

/-- The acknowledgement that two bytes stand for. -/
def UbxAck.ofPayload (messageId : UInt8) (xs : List UInt8) : UbxAck where
  type := if messageId = 0x01 then .ack else .nak
  acknowledgedClass := byteAt xs 0
  acknowledgedId := byteAt xs 1

/-- The two strings of a payload, in arrays, and how many extensions there are. -/
def UbxMonVer.ofPayload (xs : List UInt8) : UbxMonVer where
  softwareVersion := overwrite (Vector.replicate 31 0) (xs.take 30 ++ [0])
  hardwareVersion := overwrite (Vector.replicate 11 0) ((xs.drop 30).take 10 ++ [0])
  extensionCount := UInt16.ofNat ((xs.length - 40) / 30)

/-- The ports of a payload that starts with the header. -/
def commsPorts (xs : List UInt8) : List UbxMonCommsPort :=
  (List.range (byteAt xs 1).toNat).map fun k => .readAt xs (8 + k * 40)

/-- The measurements of a payload that starts with the header. -/
def rawxMeasurements (xs : List UInt8) : List UbxRxmRawxMeasurement :=
  (List.range (byteAt xs 11).toNat).map fun k => .ofPayload xs (16 + k * 32)

/-- **The catalogue**: what a payload says under a class and an id. -/
def meaning (messageClass messageId : UInt8) (xs : List UInt8) : Option Reading :=
  if AckShape messageClass messageId xs then some (.ack (.ofPayload messageId xs))
  else if NavPvtShape messageClass messageId xs then some (.navPvt (.ofPayload xs))
  else if TimTpShape messageClass messageId xs then some (.timTp (.ofPayload xs))
  else if MonVerShape messageClass messageId xs then
    some (.monVer (.ofPayload xs) (verExtensions xs ((xs.length - 40) / 30)))
  else if MonRxrShape messageClass messageId xs then some (.monRxr ⟨byteAt xs 0⟩)
  else if MonCommsShape messageClass messageId xs then
    some (.monComms (.ofPayload xs) (commsPorts xs))
  else if MonRfShape messageClass messageId xs then some (.monRf ⟨byteAt xs 0, byteAt xs 1⟩)
  else if RxmRawxShape messageClass messageId xs then
    some (.rxmRawx (.ofPayload xs) (rawxMeasurements xs))
  else if RxmSfrbxShape messageClass messageId xs then
    some (.rxmSfrbx (.ofPayload xs) (sfrbxWords xs))
  else none

/-! ## What the decoders read -/

/-- A record decoder called with every index: the records there are, and an error
behind them. -/
def Lists {ρ ι β : Type} (ok outOfRange : ρ) (toNat : ι → Nat)
    (call : ι → Option β → Run (ρ × Option β)) (records : List β) : Prop :=
  ∀ k output, call k (some output) = .ok (match records[toNat k]? with
    | some record => (ok, some record)
    | none => (outOfRange, some output))

/-- What a caller reads off a frame, whatever was in its outputs. -/
def Reads (frame : UbxFrame) : Reading → Prop
  | .ack ack => ∀ output, ubxAckDecode (some frame) (some output) = .ok (.ok, some ack)
  | .navPvt pvt => ∀ output, ubxNavPvtDecode (some frame) (some output) = .ok (.ok, some pvt)
  | .timTp tp => ∀ output, ubxTimTpDecode (some frame) (some output) = .ok (.ok, some tp)
  | .monVer ver extensions =>
    (∀ output, ubxMonVerDecode (some frame) (some output) = .ok (.ok, some ver)) ∧
      extensions.length = ver.extensionCount.toNat ∧
      Lists .ok .indexOutOfRange UInt16.toNat (ubxMonVerExtensionDecode (some frame)) extensions
  | .monRxr rxr => ∀ output, ubxMonRxrDecode (some frame) (some output) = .ok (.ok, some rxr)
  | .monComms comms ports =>
    (∀ output, ubxMonCommsDecode (some frame) (some output) = .ok (.ok, some comms)) ∧
      ports.length = comms.portCount.toNat ∧
      Lists .ok .indexOutOfRange UInt8.toNat (ubxMonCommsPortDecode (some frame)) ports
  | .monRf rf => ∀ output, ubxMonRfDecode (some frame) (some output) = .ok (.ok, some rf)
  | .rxmRawx rawx measurements =>
    (∀ output, ubxRxmRawxDecode (some frame) (some output) = .ok (.ok, some rawx)) ∧
      measurements.length = rawx.measurementCount.toNat ∧
      Lists .ok .indexOutOfRange UInt16.toNat (ubxRxmRawxMeasurementDecode (some frame))
        measurements
  | .rxmSfrbx sfrbx words =>
    (∀ output, ubxRxmSfrbxDecode (some frame) (some output) = .ok (.ok, some sfrbx)) ∧
      words.length = sfrbx.wordCount.toNat ∧
      Lists .ok .indexOutOfRange UInt16.toNat (ubxRxmSfrbxWordDecode (some frame)) words

/-- None of them reads anything, and no output is touched. -/
structure Ignored (frame : UbxFrame) : Prop where
  ack : ∀ output, Refuses .ok (some output) (ubxAckDecode (some frame) (some output))
  navPvt : ∀ output, Refuses .ok (some output) (ubxNavPvtDecode (some frame) (some output))
  timTp : ∀ output, Refuses .ok (some output) (ubxTimTpDecode (some frame) (some output))
  monVer : ∀ output, Refuses .ok (some output) (ubxMonVerDecode (some frame) (some output))
  monVerExtension : ∀ k output,
    Refuses .ok (some output) (ubxMonVerExtensionDecode (some frame) k (some output))
  monRxr : ∀ output, Refuses .ok (some output) (ubxMonRxrDecode (some frame) (some output))
  monComms : ∀ output, Refuses .ok (some output) (ubxMonCommsDecode (some frame) (some output))
  monCommsPort : ∀ k output,
    Refuses .ok (some output) (ubxMonCommsPortDecode (some frame) k (some output))
  monRf : ∀ output, Refuses .ok (some output) (ubxMonRfDecode (some frame) (some output))
  rxmRawx : ∀ output, Refuses .ok (some output) (ubxRxmRawxDecode (some frame) (some output))
  rxmRawxMeasurement : ∀ k output,
    Refuses .ok (some output) (ubxRxmRawxMeasurementDecode (some frame) k (some output))
  rxmSfrbx : ∀ output, Refuses .ok (some output) (ubxRxmSfrbxDecode (some frame) (some output))
  rxmSfrbxWord : ∀ k output,
    Refuses .ok (some output) (ubxRxmSfrbxWordDecode (some frame) k (some output))

/-! ### One validator at a time -/

theorem ubxMonCommsValidate_validates (h : Holds frame xs) :
    Validates .ok (MonCommsShape frame.messageClass frame.messageId xs) (byteAt xs 1)
      (ubxMonCommsValidate (some frame)) :=
  @ubxMonCountedValidate_validates frame xs h 0x36 8 40 (by simp)

theorem ubxMonRfValidate_validates (h : Holds frame xs) :
    Validates .ok (MonRfShape frame.messageClass frame.messageId xs) (byteAt xs 1)
      (ubxMonRfValidate (some frame)) :=
  @ubxMonCountedValidate_validates frame xs h 0x38 4 24 (by simp)

theorem ubxRxmRawxValidate_validates (h : Holds frame xs) :
    Validates .ok (RxmRawxShape frame.messageClass frame.messageId xs) ()
      (ubxRxmRawxValidate (some frame)) :=
  @ubxRxmCountedValidate_validates frame xs h 0x15 0x01 16 13 11 32 (by simp) (by simp)

theorem ubxRxmSfrbxValidate_validates (h : Holds frame xs) :
    Validates .ok (RxmSfrbxShape frame.messageClass frame.messageId xs) ()
      (ubxRxmSfrbxValidate (some frame)) :=
  @ubxRxmCountedValidate_validates frame xs h 0x13 0x02 8 6 4 4 (by simp) (by simp)

/-! ### One decoder at a time -/

theorem ubxAckDecode_exactly (h : Holds frame xs) (output : UbxAck) :
    Exactly .ok output (AckShape frame.messageClass frame.messageId xs)
      (.ofPayload frame.messageId xs) (ubxAckDecode (some frame) (some output)) := by
  obtain ⟨more, hframe⟩ := h.payload
  have hpayload : frame.payload = some (xs ++ more) := congrArg UbxFrame.payload hframe
  unfold ubxAckDecode
  dsimp only
  constructor
  · intro hshape
    obtain ⟨hclass, hid, hlength⟩ := hshape
    have htwo : frame.payloadLength = 2 := (h.length_iff 2).mpr hlength
    rw [if_neg (not_not.mpr hclass), if_neg (not_not.mpr htwo), hpayload]
    rcases hid with hid | hid
    · rw [if_pos hid, ubxAckFields_front (Nat.le_of_eq hlength.symm), hid]
      rfl
    · rw [if_neg (by rw [hid]; simp), if_pos hid, ubxAckFields_front (Nat.le_of_eq hlength.symm),
        hid]
      rfl
  · intro hnot
    split
    next => exact ⟨.wrongClass, by simp, rfl⟩
    next hclass =>
      split
      next => exact ⟨.wrongLength, by simp, rfl⟩
      next htwo =>
        have hlength : xs.length = 2 := (h.length_iff 2).mp (not_not.mp htwo)
        split
        next hid => exact absurd ⟨not_not.mp hclass, Or.inl hid, hlength⟩ hnot
        next =>
          split
          next hid => exact absurd ⟨not_not.mp hclass, Or.inr hid, hlength⟩ hnot
          next => exact ⟨.wrongId, by simp, rfl⟩

theorem ubxNavPvtDecode_exactly (h : Holds frame xs) (output : UbxNavPvt) :
    Exactly .ok output (NavPvtShape frame.messageClass frame.messageId xs) (.ofPayload xs)
      (ubxNavPvtDecode (some frame) (some output)) :=
  @fixedDecode_exactly frame xs _ _ UbxNavPvtDecodeResult.ok .nullArgument .wrongMessage
    .wrongLength 0x01 0x07 92 ubxNavPvtFields (.ofPayload xs) h (by simp) (by simp)
    (fun hlen more => ubxNavPvtFields_front hlen more) output

theorem ubxTimTpDecode_exactly (h : Holds frame xs) (output : UbxTimTp) :
    Exactly .ok output (TimTpShape frame.messageClass frame.messageId xs) (.ofPayload xs)
      (ubxTimTpDecode (some frame) (some output)) :=
  @fixedDecode_exactly frame xs _ _ UbxTimTpDecodeResult.ok .nullArgument .wrongMessage .wrongLength
    0x0D 0x01 16 ubxTimTpFields (.ofPayload xs) h (by simp) (by simp)
    (fun hlen more => ubxTimTpFields_front hlen more) output

theorem ubxMonRxrDecode_exactly (h : Holds frame xs) (output : UbxMonRxr) :
    Exactly .ok output (MonRxrShape frame.messageClass frame.messageId xs) ⟨byteAt xs 0⟩
      (ubxMonRxrDecode (some frame) (some output)) := by
  obtain ⟨more, hframe⟩ := h.payload
  have hpayload : frame.payload = some (xs ++ more) := congrArg UbxFrame.payload hframe
  have hmessage := @ubxMonValidateMessage_some frame 0x21 (xs ++ more)
  rw [← hframe] at hmessage
  unfold ubxMonRxrDecode
  rw [hmessage]
  by_cases hdiffers : frame.messageClass ≠ 0x0A ∨ frame.messageId ≠ 0x21
  · rw [if_pos hdiffers]
    constructor
    · intro hshape
      obtain ⟨hclass, hid, -⟩ := hshape
      exact absurd hdiffers (right_message hclass hid)
    · exact fun _ => ⟨.wrongMessage, by simp, decodeInto_error⟩
  · rw [if_neg hdiffers]
    rw [not_or, not_not, not_not] at hdiffers
    constructor
    · intro hshape
      obtain ⟨-, -, hlength⟩ := hshape
      apply decodeInto_read
      rw [deref_some, ok_bind, if_neg (not_not.mpr ((h.length_iff 1).mpr hlength)), hpayload,
        readByte_front (by omega), ok_bind]
      rfl
    · intro hnot
      have hlength : frame.payloadLength ≠ 1 := by
        intro hone
        exact hnot ⟨hdiffers.1, hdiffers.2, (h.length_iff 1).mp hone⟩
      refine ⟨.wrongLength, by simp, decodeInto_readError ?_⟩
      rw [deref_some, ok_bind, if_pos hlength]
      rfl

theorem ubxMonRfDecode_exactly (h : Holds frame xs) (output : UbxMonRf) :
    Exactly .ok output (MonRfShape frame.messageClass frame.messageId xs)
      ⟨byteAt xs 0, byteAt xs 1⟩ (ubxMonRfDecode (some frame) (some output)) := by
  obtain ⟨more, hframe⟩ := h.payload
  have hpayload : frame.payload = some (xs ++ more) := congrArg UbxFrame.payload hframe
  refine (ubxMonRfValidate_validates h).exactly ?_
  intro hshape haccept
  obtain ⟨-, -, -, hlength⟩ := hshape
  rw [haccept]
  apply decodeInto_read
  rw [deref_some, ok_bind, hpayload, readByte_front (by omega), ok_bind]
  rfl

theorem ubxMonCommsDecode_exactly (h : Holds frame xs) (output : UbxMonComms) :
    Exactly .ok output (MonCommsShape frame.messageClass frame.messageId xs) (.ofPayload xs)
      (ubxMonCommsDecode (some frame) (some output)) := by
  obtain ⟨more, hframe⟩ := h.payload
  refine (ubxMonCommsValidate_validates h).exactly ?_
  intro hshape haccept
  obtain ⟨-, -, -, hlength⟩ := hshape
  have hheader : 8 ≤ xs.length := by
    rw [hlength]
    exact Nat.le_add_right 8 _
  rw [hframe] at haccept ⊢
  exact ubxMonCommsDecode_reads hheader haccept output

theorem ubxRxmRawxDecode_exactly (h : Holds frame xs) (output : UbxRxmRawx) :
    Exactly .ok output (RxmRawxShape frame.messageClass frame.messageId xs) (.ofPayload xs)
      (ubxRxmRawxDecode (some frame) (some output)) := by
  obtain ⟨more, hframe⟩ := h.payload
  refine (ubxRxmRawxValidate_validates h).exactly ?_
  intro hshape haccept
  obtain ⟨-, -, -, hlength⟩ := hshape
  have hheader : 16 ≤ xs.length := by
    rw [hlength]
    exact Nat.le_add_right 16 _
  rw [hframe] at haccept ⊢
  exact ubxRxmRawxDecode_reads hheader haccept output

theorem ubxRxmSfrbxDecode_exactly (h : Holds frame xs) (output : UbxRxmSfrbx) :
    Exactly .ok output (RxmSfrbxShape frame.messageClass frame.messageId xs) (.ofPayload xs)
      (ubxRxmSfrbxDecode (some frame) (some output)) := by
  obtain ⟨more, hframe⟩ := h.payload
  refine (ubxRxmSfrbxValidate_validates h).exactly ?_
  intro hshape haccept
  obtain ⟨-, -, -, hlength⟩ := hshape
  have hheader : 8 ≤ xs.length := by
    rw [hlength]
    exact Nat.le_add_right 8 _
  rw [hframe] at haccept ⊢
  exact ubxRxmSfrbxDecode_reads hheader haccept output

theorem ubxMonVerDecode_exactly (h : Holds frame xs) (output : UbxMonVer) :
    Exactly .ok output (MonVerShape frame.messageClass frame.messageId xs) (.ofPayload xs)
      (ubxMonVerDecode (some frame) (some output)) := by
  obtain ⟨more, hframe⟩ := h.payload
  refine (ubxMonVerValidate_validates h rfl).exactly ?_
  intro hshape haccept
  obtain ⟨-, -, hlength⟩ := hshape
  have hbase : 40 ≤ xs.length := by
    rw [hlength]
    exact Nat.le_add_right 40 _
  have hsoftware : (xs.take 30).length = 30 := by
    rw [List.length_take]
    omega
  have hhardware : ((xs.drop 30).take 10).length = 10 := length_window (by omega)
  rw [hframe] at haccept ⊢
  have hreads := ubxMonVerDecode_reads hbase haccept output
  rwa [string_full output.softwareVersion (Vector.replicate 31 0) hsoftware,
    string_full output.hardwareVersion (Vector.replicate 11 0) hhardware] at hreads

/-! ### One record decoder at a time -/

section

variable {ρ κ ι β : Type} {ok outOfRange nullArgument : ρ} {toNat : ι → Nat} {accepts : Prop}
  {call : ι → Option β → Run (ρ × Option β)} {records records' : List β}

/-- A record decoder, at every index: it lists the records under a condition, and
refuses the frame without it. -/
structure ListsExactly (ok outOfRange : ρ) (toNat : ι → Nat) (accepts : Prop) (records : List β)
    (call : ι → Option β → Run (ρ × Option β)) : Prop where
  accepted : accepts → Lists ok outOfRange toNat call records
  refused : ¬ accepts → ∀ k output, Refuses ok (some output) (call k (some output))

/-- A record decoder refuses what its validator does. -/
theorem Validates.lists {checked : κ} {validate : Run (Except ρ κ)}
    {read : ι → κ → β → Run (Except ρ β)} {count : Nat} {record : Nat → β}
    (h : Validates ok accepts checked validate)
    (hread : accepts → validate = .ok (.ok checked) → ∀ k output,
      decodeInto nullArgument ok (some output) validate (read k)
        = .ok (if toNat k < count then (ok, some (record (toNat k)))
            else (outOfRange, some output))) :
    ListsExactly ok outOfRange toNat accepts ((List.range count).map record)
      fun k output => decodeInto nullArgument ok output validate (read k) where
  accepted haccepts k output := by
    refine (hread haccepts (h.accepted haccepts) k output).trans ?_
    by_cases hk : toNat k < count
    · rw [if_pos hk, List.getElem?_map, List.getElem?_range hk]
      rfl
    · rw [if_neg hk, List.getElem?_eq_none (by simpa using hk)]
  refused hnot k output := by
    obtain ⟨r, hr, hrefused⟩ := h.refused hnot
    rw [hrefused]
    exact ⟨r, hr, decodeInto_error⟩

/-- What a decoder lists is one list, if the indexes reach so far. -/
theorem Lists.unique (h : Lists ok outOfRange toNat call records)
    (h' : Lists ok outOfRange toNat call records') (hlen : records.length = records'.length)
    (hreach : ∀ n, n < records.length → ∃ k, toNat k = n) : records = records' := by
  apply List.ext_getElem hlen
  intro n hn hn'
  obtain ⟨k, rfl⟩ := hreach n hn
  have hcall := h k records[toNat k]
  have hcall' := h' k records[toNat k]
  rw [List.getElem?_eq_getElem hn] at hcall
  rw [List.getElem?_eq_getElem hn', hcall] at hcall'
  exact Option.some.inj (congrArg Prod.snd (Except.ok.inj hcall'))

end

/-- The ports of UBX-MON-COMMS, by index. -/
theorem ubxMonCommsPortDecode_exactly (h : Holds frame xs) :
    ListsExactly .ok .indexOutOfRange UInt8.toNat
      (MonCommsShape frame.messageClass frame.messageId xs) (commsPorts xs)
      (ubxMonCommsPortDecode (some frame)) := by
  obtain ⟨more, hframe⟩ := h.payload
  refine (ubxMonCommsValidate_validates h).lists ?_
  intro hshape haccept k output
  obtain ⟨-, -, -, hlength⟩ := hshape
  rw [hframe] at haccept ⊢
  exact ubxMonCommsPortDecode_reads hlength haccept k output

/-- The measurements of UBX-RXM-RAWX. -/
theorem ubxRxmRawxMeasurementDecode_exactly (h : Holds frame xs) :
    ListsExactly .ok .indexOutOfRange UInt16.toNat
      (RxmRawxShape frame.messageClass frame.messageId xs) (rawxMeasurements xs)
      (ubxRxmRawxMeasurementDecode (some frame)) := by
  obtain ⟨more, hframe⟩ := h.payload
  refine (ubxRxmRawxValidate_validates h).lists ?_
  intro hshape haccept k output
  obtain ⟨-, -, -, hlength⟩ := hshape
  rw [hframe] at haccept ⊢
  exact ubxRxmRawxMeasurementDecode_reads hlength haccept k output

/-- The words of UBX-RXM-SFRBX. -/
theorem ubxRxmSfrbxWordDecode_exactly (h : Holds frame xs) :
    ListsExactly .ok .indexOutOfRange UInt16.toNat
      (RxmSfrbxShape frame.messageClass frame.messageId xs) (sfrbxWords xs)
      (ubxRxmSfrbxWordDecode (some frame)) := by
  obtain ⟨more, hframe⟩ := h.payload
  refine (ubxRxmSfrbxValidate_validates h).lists ?_
  intro hshape haccept k output
  obtain ⟨-, -, -, hlength⟩ := hshape
  rw [hframe] at haccept ⊢
  exact ubxRxmSfrbxWordDecode_reads hlength haccept k output

/-- The 16-bit count of the extensions is their number. -/
theorem extensions_count (h : Holds frame xs) :
    (UInt16.ofNat ((xs.length - 40) / 30)).toNat = (xs.length - 40) / 30 := by
  have hlt := frame.payloadLength.toNat_lt
  have hlen := h.length
  rw [UInt16.toNat_ofNat']
  omega

/-- The extensions of UBX-MON-VER, which fill the whole output. -/
theorem ubxMonVerExtensionDecode_exactly (h : Holds frame xs) :
    ListsExactly .ok .indexOutOfRange UInt16.toNat
      (MonVerShape frame.messageClass frame.messageId xs)
      (verExtensions xs ((xs.length - 40) / 30)) (ubxMonVerExtensionDecode (some frame)) := by
  obtain ⟨more, hframe⟩ := h.payload
  have hcount := extensions_count h
  refine (ubxMonVerValidate_validates h rfl).lists ?_
  intro hshape haccept k output
  obtain ⟨-, -, hlength⟩ := hshape
  rw [hframe] at haccept ⊢
  have hreads := ubxMonVerExtensionDecode_reads (by rw [hcount]; exact hlength) haccept k output
  refine hreads.trans ?_
  rw [hcount]
  split
  next hk =>
    have hwindow := @length_window _ xs (40 + k.toNat * 30) 30 (record_fits hlength hk)
    rw [string_full output (Vector.replicate 31 0) hwindow]
  next => rfl

/-! ## The decoders and the catalogue -/

section

variable {c i : UInt8}

theorem meaning_ack (h : AckShape c i xs) : meaning c i xs = some (.ack (.ofPayload i xs)) :=
  if_pos h

theorem meaning_navPvt (h : NavPvtShape c i xs) :
    meaning c i xs = some (.navPvt (.ofPayload xs)) := by
  obtain ⟨rfl, rfl, hlength⟩ := h
  simp [meaning, AckShape, NavPvtShape, hlength]

theorem meaning_timTp (h : TimTpShape c i xs) : meaning c i xs = some (.timTp (.ofPayload xs)) := by
  obtain ⟨rfl, rfl, hlength⟩ := h
  simp [meaning, AckShape, NavPvtShape, TimTpShape, hlength]

theorem meaning_monVer (h : MonVerShape c i xs) :
    meaning c i xs = some (.monVer (.ofPayload xs) (verExtensions xs ((xs.length - 40) / 30))) := by
  obtain ⟨rfl, rfl, hlength⟩ := h
  rw [meaning, if_neg (by simp [AckShape]), if_neg (by simp [NavPvtShape]),
    if_neg (by simp [TimTpShape]), if_pos ⟨rfl, rfl, hlength⟩]

theorem meaning_monRxr (h : MonRxrShape c i xs) :
    meaning c i xs = some (.monRxr ⟨byteAt xs 0⟩) := by
  obtain ⟨rfl, rfl, hlength⟩ := h
  simp [meaning, AckShape, NavPvtShape, TimTpShape, MonVerShape, MonRxrShape, hlength]

theorem meaning_monComms (h : MonCommsShape c i xs) :
    meaning c i xs = some (.monComms (.ofPayload xs) (commsPorts xs)) := by
  obtain ⟨rfl, rfl, hversion, hlength⟩ := h
  simp [meaning, AckShape, NavPvtShape, TimTpShape, MonVerShape, MonRxrShape, MonCommsShape,
    hversion, hlength]

theorem meaning_monRf (h : MonRfShape c i xs) :
    meaning c i xs = some (.monRf ⟨byteAt xs 0, byteAt xs 1⟩) := by
  obtain ⟨rfl, rfl, hversion, hlength⟩ := h
  simp [meaning, AckShape, NavPvtShape, TimTpShape, MonVerShape, MonRxrShape, MonCommsShape,
    MonRfShape, hversion, hlength]

theorem meaning_rxmRawx (h : RxmRawxShape c i xs) :
    meaning c i xs = some (.rxmRawx (.ofPayload xs) (rawxMeasurements xs)) := by
  obtain ⟨rfl, rfl, hversion, hlength⟩ := h
  simp [meaning, AckShape, NavPvtShape, TimTpShape, MonVerShape, MonRxrShape, MonCommsShape,
    MonRfShape, RxmRawxShape, hversion, hlength]

theorem meaning_rxmSfrbx (h : RxmSfrbxShape c i xs) :
    meaning c i xs = some (.rxmSfrbx (.ofPayload xs) (sfrbxWords xs)) := by
  obtain ⟨rfl, rfl, hversion, hlength⟩ := h
  simp [meaning, AckShape, NavPvtShape, TimTpShape, MonVerShape, MonRxrShape, MonCommsShape,
    MonRfShape, RxmRawxShape, RxmSfrbxShape, hversion, hlength]

end

/-- What is read is what the frame means. -/
theorem meaning_of_reads (h : Holds frame xs) {r : Reading} (hreads : Reads frame r) :
    meaning frame.messageClass frame.messageId xs = some r := by
  have hbyte : ∀ {n : Nat} (b : UInt8), n < b.toNat → ∃ k : UInt16, k.toNat = n := by
    intro n b hn
    have hlt := b.toNat_lt
    exact ⟨UInt16.ofNat n, by rw [UInt16.toNat_ofNat']; omega⟩
  cases r with
  | ack ack =>
    obtain ⟨hshape, rfl⟩ := (ubxAckDecode_exactly h ack).value_eq (hreads ack)
    exact meaning_ack hshape
  | navPvt pvt =>
    obtain ⟨hshape, rfl⟩ := (ubxNavPvtDecode_exactly h pvt).value_eq (hreads pvt)
    exact meaning_navPvt hshape
  | timTp tp =>
    obtain ⟨hshape, rfl⟩ := (ubxTimTpDecode_exactly h tp).value_eq (hreads tp)
    exact meaning_timTp hshape
  | monVer ver extensions =>
    obtain ⟨hver, hcount, hlist⟩ := hreads
    obtain ⟨hshape, rfl⟩ := (ubxMonVerDecode_exactly h ver).value_eq (hver ver)
    have hlist' := (ubxMonVerExtensionDecode_exactly h).accepted hshape
    have hlen : (verExtensions xs ((xs.length - 40) / 30)).length = extensions.length := by
      rw [hcount, verExtensions, List.length_map, List.length_range]
      exact (extensions_count h).symm
    rw [meaning_monVer hshape, hlist'.unique hlist hlen]
    intro n hn
    have hlt := frame.payloadLength.toNat_lt
    have hxs := h.length
    rw [verExtensions, List.length_map, List.length_range] at hn
    exact ⟨UInt16.ofNat n, by rw [UInt16.toNat_ofNat']; omega⟩
  | monRxr rxr =>
    obtain ⟨hshape, rfl⟩ := (ubxMonRxrDecode_exactly h rxr).value_eq (hreads rxr)
    exact meaning_monRxr hshape
  | monComms comms ports =>
    obtain ⟨hcomms, hcount, hlist⟩ := hreads
    obtain ⟨hshape, rfl⟩ := (ubxMonCommsDecode_exactly h comms).value_eq (hcomms comms)
    have hlist' := (ubxMonCommsPortDecode_exactly h).accepted hshape
    have hlen : (commsPorts xs).length = ports.length := by
      rw [hcount, commsPorts, List.length_map, List.length_range]
      rfl
    rw [meaning_monComms hshape, hlist'.unique hlist hlen]
    intro n hn
    rw [commsPorts, List.length_map, List.length_range] at hn
    have hlt := (byteAt xs 1).toNat_lt
    exact ⟨UInt8.ofNat n, by rw [UInt8.toNat_ofNat']; omega⟩
  | monRf rf =>
    obtain ⟨hshape, rfl⟩ := (ubxMonRfDecode_exactly h rf).value_eq (hreads rf)
    exact meaning_monRf hshape
  | rxmRawx rawx measurements =>
    obtain ⟨hrawx, hcount, hlist⟩ := hreads
    obtain ⟨hshape, rfl⟩ := (ubxRxmRawxDecode_exactly h rawx).value_eq (hrawx rawx)
    have hlist' := (ubxRxmRawxMeasurementDecode_exactly h).accepted hshape
    have hlen : (rawxMeasurements xs).length = measurements.length := by
      rw [hcount, rawxMeasurements, List.length_map, List.length_range]
      rfl
    rw [meaning_rxmRawx hshape, hlist'.unique hlist hlen]
    intro n hn
    rw [rawxMeasurements, List.length_map, List.length_range] at hn
    exact hbyte _ hn
  | rxmSfrbx sfrbx words =>
    obtain ⟨hsfrbx, hcount, hlist⟩ := hreads
    obtain ⟨hshape, rfl⟩ := (ubxRxmSfrbxDecode_exactly h sfrbx).value_eq (hsfrbx sfrbx)
    have hlist' := (ubxRxmSfrbxWordDecode_exactly h).accepted hshape
    have hlen : (sfrbxWords xs).length = words.length := by
      rw [hcount, sfrbxWords, List.length_map, List.length_range]
      rfl
    rw [meaning_rxmSfrbx hshape, hlist'.unique hlist hlen]
    intro n hn
    rw [sfrbxWords, List.length_map, List.length_range] at hn
    exact hbyte _ hn

/-- What the frame means is read. -/
theorem reads_of_meaning (h : Holds frame xs) {r : Reading}
    (hmeaning : meaning frame.messageClass frame.messageId xs = some r) : Reads frame r := by
  unfold meaning at hmeaning
  split at hmeaning
  next hshape =>
    cases hmeaning
    exact fun output => (ubxAckDecode_exactly h output).accepted hshape
  next =>
  split at hmeaning
  next hshape =>
    cases hmeaning
    exact fun output => (ubxNavPvtDecode_exactly h output).accepted hshape
  next =>
  split at hmeaning
  next hshape =>
    cases hmeaning
    exact fun output => (ubxTimTpDecode_exactly h output).accepted hshape
  next =>
  split at hmeaning
  next hshape =>
    cases hmeaning
    refine ⟨fun output => (ubxMonVerDecode_exactly h output).accepted hshape, ?_,
      (ubxMonVerExtensionDecode_exactly h).accepted hshape⟩
    rw [verExtensions, List.length_map, List.length_range]
    exact (extensions_count h).symm
  next =>
  split at hmeaning
  next hshape =>
    cases hmeaning
    exact fun output => (ubxMonRxrDecode_exactly h output).accepted hshape
  next =>
  split at hmeaning
  next hshape =>
    cases hmeaning
    refine ⟨fun output => (ubxMonCommsDecode_exactly h output).accepted hshape, ?_,
      (ubxMonCommsPortDecode_exactly h).accepted hshape⟩
    rw [commsPorts, List.length_map, List.length_range]
    rfl
  next =>
  split at hmeaning
  next hshape =>
    cases hmeaning
    exact fun output => (ubxMonRfDecode_exactly h output).accepted hshape
  next =>
  split at hmeaning
  next hshape =>
    cases hmeaning
    refine ⟨fun output => (ubxRxmRawxDecode_exactly h output).accepted hshape, ?_,
      (ubxRxmRawxMeasurementDecode_exactly h).accepted hshape⟩
    rw [rawxMeasurements, List.length_map, List.length_range]
    rfl
  next =>
  split at hmeaning
  next hshape =>
    cases hmeaning
    refine ⟨fun output => (ubxRxmSfrbxDecode_exactly h output).accepted hshape, ?_,
      (ubxRxmSfrbxWordDecode_exactly h).accepted hshape⟩
    rw [sfrbxWords, List.length_map, List.length_range]
    rfl
  next => cases hmeaning

/-- A frame that means nothing has none of the shapes. -/
theorem ignored_of_meaning (h : Holds frame xs)
    (hmeaning : meaning frame.messageClass frame.messageId xs = none) : Ignored frame := by
  have hnone : ∀ r, meaning frame.messageClass frame.messageId xs ≠ some r := by
    intro r
    rw [hmeaning]
    simp
  exact
    { ack := fun output =>
        (ubxAckDecode_exactly h output).refused fun hs => hnone _ (meaning_ack hs)
      navPvt := fun output =>
        (ubxNavPvtDecode_exactly h output).refused fun hs => hnone _ (meaning_navPvt hs)
      timTp := fun output =>
        (ubxTimTpDecode_exactly h output).refused fun hs => hnone _ (meaning_timTp hs)
      monVer := fun output =>
        (ubxMonVerDecode_exactly h output).refused fun hs => hnone _ (meaning_monVer hs)
      monVerExtension :=
        (ubxMonVerExtensionDecode_exactly h).refused fun hs => hnone _ (meaning_monVer hs)
      monRxr := fun output =>
        (ubxMonRxrDecode_exactly h output).refused fun hs => hnone _ (meaning_monRxr hs)
      monComms := fun output =>
        (ubxMonCommsDecode_exactly h output).refused fun hs => hnone _ (meaning_monComms hs)
      monCommsPort :=
        (ubxMonCommsPortDecode_exactly h).refused fun hs => hnone _ (meaning_monComms hs)
      monRf := fun output =>
        (ubxMonRfDecode_exactly h output).refused fun hs => hnone _ (meaning_monRf hs)
      rxmRawx := fun output =>
        (ubxRxmRawxDecode_exactly h output).refused fun hs => hnone _ (meaning_rxmRawx hs)
      rxmRawxMeasurement :=
        (ubxRxmRawxMeasurementDecode_exactly h).refused fun hs => hnone _ (meaning_rxmRawx hs)
      rxmSfrbx := fun output =>
        (ubxRxmSfrbxDecode_exactly h output).refused fun hs => hnone _ (meaning_rxmSfrbx hs)
      rxmSfrbxWord :=
        (ubxRxmSfrbxWordDecode_exactly h).refused fun hs => hnone _ (meaning_rxmSfrbx hs) }

/-- **The decoders read what a frame means.** On every readable frame the
decoders return exactly what the catalogue has for its class, its id and its
payload; so at most one of them accepts it, and where the catalogue has nothing,
every one of them refuses it and leaves its output as it was. -/
theorem decoders_mean (frame : UbxFrame) (hreadable : frame.Readable) {cells : List UInt8}
    (hpayload : frame.payload = some cells) :
    (∀ r, Reads frame r ↔ meaning frame.messageClass frame.messageId
      (cells.take frame.payloadLength.toNat) = some r) ∧
    (meaning frame.messageClass frame.messageId (cells.take frame.payloadLength.toNat) = none →
      Ignored frame) := by
  obtain ⟨hsplit, hlen⟩ := hreadable.split hpayload
  have h : Holds frame (cells.take frame.payloadLength.toNat) := ⟨hlen, _, hsplit⟩
  exact ⟨fun r => ⟨meaning_of_reads h, reads_of_meaning h⟩, ignored_of_meaning h⟩

/-- An acknowledgement, and one of a length that there is not. -/
theorem decoders_mean_ack :
    Reads ⟨0x05, 0x01, 2, some [0x06, 0x8A, 9]⟩ (.ack ⟨.ack, 0x06, 0x8A⟩) ∧
      Ignored ⟨0x05, 0x01, 3, some [0x06, 0x8A, 9]⟩ := by
  constructor
  · obtain ⟨hreads, -⟩ := decoders_mean ⟨0x05, 0x01, 2, some [0x06, 0x8A, 9]⟩
      (fun cells hcells => by cases hcells; simp) rfl
    exact (hreads _).mpr rfl
  · obtain ⟨-, hignored⟩ := decoders_mean ⟨0x05, 0x01, 3, some [0x06, 0x8A, 9]⟩
      (fun cells hcells => by cases hcells; simp) rfl
    exact hignored rfl

end Ubx.Decode
