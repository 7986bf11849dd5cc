import Ubx.Decode.MonSigned
import Ubx.Decode.Safety

/-!
# Frames without a payload

A caller can hand the decoders a frame of its own making, with a `NULL` payload
and any `payload_length`. All of them test the pointer before they read through
it, each in its own place among the other tests, except `ubx_ack_decode`, which
never does. Its tests of class, length and id refuse most such frames; the rest
(`IsAck`) it reads through `NULL` (`ubxAckDecode_null`).

A frame that the parser delivers is not among those, since its payload is `NULL`
only where it is empty (`Delivered.refused`).
-/

namespace Ubx.Decode

open Lib Ubx.Stream Ubx.Cfg

variable {frame : UbxFrame}

/-- The call returns an error and leaves its output as it was. -/
def Refuses {ρ α : Type} (ok : ρ) (output : Option α) (call : Run (ρ × Option α)) : Prop :=
  ∃ r, r ≠ ok ∧ call = .ok (r, output)

/-- Every decoder refuses the frame, with any index and any output. -/
structure Refused (frame : UbxFrame) : Prop where
  ack : ∀ output, Refuses .ok output (ubxAckDecode (some frame) output)
  navPvt : ∀ output, Refuses .ok output (ubxNavPvtDecode (some frame) output)
  timTp : ∀ output, Refuses .ok output (ubxTimTpDecode (some frame) output)
  valget : ∀ iterator, Refuses .ok iterator (ubxCfgValgetIteratorInit (some frame) iterator)
  monVer : ∀ output, Refuses .ok output (ubxMonVerDecode (some frame) output)
  monVerExtension : ∀ index output,
    Refuses .ok output (ubxMonVerExtensionDecode (some frame) index output)
  monRxr : ∀ output, Refuses .ok output (ubxMonRxrDecode (some frame) output)
  monComms : ∀ output, Refuses .ok output (ubxMonCommsDecode (some frame) output)
  monCommsPort : ∀ index output,
    Refuses .ok output (ubxMonCommsPortDecode (some frame) index output)
  monRf : ∀ output, Refuses .ok output (ubxMonRfDecode (some frame) output)
  monRfBlock : ∀ index output, Refuses .ok output (ubxMonRfBlockDecode (some frame) index output)
  monSys : ∀ output, Refuses .ok output (ubxMonSysDecode (some frame) output)
  rxmRawx : ∀ output, Refuses .ok output (ubxRxmRawxDecode (some frame) output)
  rxmRawxMeasurement : ∀ index output,
    Refuses .ok output (ubxRxmRawxMeasurementDecode (some frame) index output)
  rxmSfrbx : ∀ output, Refuses .ok output (ubxRxmSfrbxDecode (some frame) output)
  rxmSfrbxWord : ∀ index output,
    Refuses .ok output (ubxRxmSfrbxWordDecode (some frame) index output)

/-! ## The decoders that test the pointer -/

section

variable {ρ κ α : Type} {ok nullArgument : ρ}

/-- A validator that refuses a `NULL` payload does so for the whole decoder. -/
theorem decodeInto_refuses {validate : Run (Except ρ κ)} {read : κ → α → Run (Except ρ α)}
    (hne : nullArgument ≠ ok) (hvalidate : validate = .ok (.error nullArgument))
    (output : Option α) : Refuses ok output (decodeInto nullArgument ok output validate read) := by
  subst hvalidate
  obtain ⟨r, hr, hrun⟩ := @decodeInto_refused ρ κ α nullArgument ok output nullArgument read
  rcases hr with rfl | rfl
  · exact ⟨_, hne, hrun⟩
  · exact ⟨_, hne, hrun⟩

theorem fixedDecode_refuses {wrongMessage wrongLength : ρ} {messageClass messageId : UInt8}
    {payloadLength : UInt16} {fields : Option (List UInt8) → Run α} (hnull : nullArgument ≠ ok)
    (hmessage : wrongMessage ≠ ok) (hlength : wrongLength ≠ ok) (hpayload : frame.payload = none)
    (output : Option α) :
    Refuses ok output (fixedDecode ok nullArgument wrongMessage wrongLength messageClass messageId
      payloadLength fields (some frame) output) := by
  obtain ⟨r, hr, hrun⟩ := fixedDecode_null output hpayload
  rcases hr with rfl | rfl | rfl
  · exact ⟨_, hnull, hrun⟩
  · exact ⟨_, hmessage, hrun⟩
  · exact ⟨_, hlength, hrun⟩

end

/-! ## UBX-ACK -/

/-- The frame passes every test of `ubx_ack_decode`: it is a UBX-ACK-ACK or
UBX-ACK-NAK of two bytes, wherever they are. -/
def IsAck (frame : UbxFrame) : Prop :=
  frame.messageClass = 0x05 ∧ frame.payloadLength = 2 ∧
    (frame.messageId = 0x00 ∨ frame.messageId = 0x01)

/-- Behind its tests the first acknowledged byte is read through `NULL`. -/
theorem ubxAckDecode_null (hack : IsAck frame) (hpayload : frame.payload = none) (ack : UbxAck) :
    ubxAckDecode (some frame) (some ack) = .error (.noObject 0) := by
  obtain ⟨hclass, hlength, hid⟩ := hack
  unfold ubxAckDecode
  dsimp only
  rw [if_neg (not_not.mpr hclass), if_neg (not_not.mpr hlength), hpayload]
  rcases hid with hnak | hack
  · rw [hnak]
    rfl
  · rw [hack]
    rfl

/-- What its tests refuse is not read. -/
theorem ubxAckDecode_refuses (hack : ¬ IsAck frame) (output : Option UbxAck) :
    Refuses .ok output (ubxAckDecode (some frame) output) := by
  cases output with
  | none => exact ⟨.nullArgument, by simp, rfl⟩
  | some ack =>
    unfold ubxAckDecode
    dsimp only
    by_cases hclass : frame.messageClass = 0x05
    · rw [if_neg (not_not.mpr hclass)]
      by_cases hlength : frame.payloadLength = 2
      · have hid : ¬(frame.messageId = 0x00 ∨ frame.messageId = 0x01) :=
          fun hid => hack ⟨hclass, hlength, hid⟩
        rw [if_neg (not_not.mpr hlength), if_neg fun h => hid (Or.inr h),
          if_neg fun h => hid (Or.inl h)]
        exact ⟨.wrongId, by simp, rfl⟩
      · exact ⟨.wrongLength, by simp, if_pos hlength⟩
    · exact ⟨.wrongClass, by simp, if_pos hclass⟩

/-! ## Every decoder -/

/-- Without a payload, the frames that `ubx_ack_decode` refuses are refused by all. -/
theorem refused_of_null (hpayload : frame.payload = none) (hack : ¬ IsAck frame) :
    Refused frame where
  ack := ubxAckDecode_refuses hack
  navPvt := fixedDecode_refuses (by simp) (by simp) (by simp) hpayload
  timTp := fixedDecode_refuses (by simp) (by simp) (by simp) hpayload
  valget := ubxCfgValgetIteratorInit_null hpayload
  monVer := decodeInto_refuses (by simp) (ubxMonVerValidate_null hpayload)
  monVerExtension _ := decodeInto_refuses (by simp) (ubxMonVerValidate_null hpayload)
  monRxr := decodeInto_refuses (by simp) (congrArg _ (ubxMonValidateMessage_null _ hpayload))
  monComms := decodeInto_refuses (by simp) (ubxMonCountedValidate_null hpayload)
  monCommsPort _ := decodeInto_refuses (by simp) (ubxMonCountedValidate_null hpayload)
  monRf := decodeInto_refuses (by simp) (ubxMonCountedValidate_null hpayload)
  monRfBlock _ := decodeInto_refuses (by simp) (ubxMonCountedValidate_null hpayload)
  monSys := decodeInto_refuses (by simp) (congrArg _ (ubxMonValidateMessage_null _ hpayload))
  rxmRawx := decodeInto_refuses (by simp) (ubxRxmCountedValidate_null hpayload)
  rxmRawxMeasurement _ := decodeInto_refuses (by simp) (ubxRxmCountedValidate_null hpayload)
  rxmSfrbx := decodeInto_refuses (by simp) (ubxRxmCountedValidate_null hpayload)
  rxmSfrbxWord _ := decodeInto_refuses (by simp) (ubxRxmCountedValidate_null hpayload)

/-- What the parser delivers without a payload is empty, so all of them refuse it. -/
theorem Delivered.refused (h : Delivered frame) (hpayload : frame.payload = none) :
    Refused frame := by
  refine refused_of_null hpayload fun hack => ?_
  have hzero := h.null hpayload
  rw [hack.2.1] at hzero
  exact absurd hzero (by decide)

/-- **Which frames without a payload every decoder refuses**: all of them but the
acknowledgements of the right length. -/
theorem null_payload_refused (frame : UbxFrame) (hpayload : frame.payload = none) :
    Refused frame ↔ ¬(frame.messageClass = 0x05 ∧ frame.payloadLength = 2 ∧
      (frame.messageId = 0x00 ∨ frame.messageId = 0x01)) := by
  constructor
  · intro hrefused hack
    obtain ⟨r, -, hrun⟩ := hrefused.ack (some ⟨.nak, 0, 0⟩)
    rw [ubxAckDecode_null hack hpayload] at hrun
    cases hrun
  · exact refused_of_null hpayload

/-- A UBX-NAV-PVT of the right length. -/
theorem null_payload_refused_navPvt : Refused ⟨0x01, 0x07, 92, none⟩ :=
  (null_payload_refused _ rfl).mpr (by decide)

/-- A UBX-ACK-ACK of the right length. -/
theorem null_payload_counterexample : ¬ Refused ⟨0x05, 0x01, 2, none⟩ := by
  intro hrefused
  obtain ⟨r, -, hrun⟩ := hrefused.ack (some ⟨.nak, 0, 0⟩)
  cases hrun

end Ubx.Decode
