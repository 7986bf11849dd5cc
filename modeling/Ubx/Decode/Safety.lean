import Ubx.Cfg.Iterate
import Ubx.Decode.Fixed
import Ubx.Decode.Mon
import Ubx.Decode.Rxm
import Ubx.Stream.History

/-!
# From the parser to the decoders

A frame that the parser delivers is one the decoders can be called on: its
payload has the bytes it is said to have, and a `NULL` payload has none
(`delivered`). So every decoder, with any index and any output, reads of it only
bytes below `payload_length`, and so does the VALGET iterator however often it
is called. `decoders_read_within` is the statement for whole sessions.

The parser goes on writing into the buffer that its frames show. The bytes a
decoder finds there may not be those of the frame any more; the statement holds
of whatever bytes they are.
-/

namespace Ubx.Decode

open Lib Ubx.Stream Ubx.Cfg

/-! ## The iterator -/

/-- One call of the iterator, with an item of the caller's. -/
def nextCall (P : Platform) (iterator : Option UbxCfgValgetIterator)
    (item : Option UbxCfgValgetItem) :
    Run ((UbxCfgIterateResult × Option UbxCfgValgetItem) × Option UbxCfgValgetIterator) := do
  let (result, iterator, item) ← ubxCfgValgetIteratorNext P iterator item
  return ((result, item), iterator)

/-- `ubx_cfg_valget_iterator_init` and, if it accepts the frame, a call of
`ubx_cfg_valget_iterator_next` for every item: what the calls give back. -/
def valgetWalk (P : Platform) (frame : Option UbxFrame) (iterator : Option UbxCfgValgetIterator)
    (items : List (Option UbxCfgValgetItem)) :
    Run (UbxCfgDecodeResult × List (UbxCfgIterateResult × Option UbxCfgValgetItem)) := do
  let (result, iterator) ← ubxCfgValgetIteratorInit frame iterator
  if result ≠ .ok then
    return (result, [])
  let (returns, _) ← run (nextCall P) iterator items
  return (result, returns)

/-- The iterator on a payload object. -/
def onPayload (it : UbxCfgValgetIterator) (payload : Option (List UInt8)) : UbxCfgValgetIterator :=
  { it with payload := payload }

/-- The iterator is inside a payload of the bytes `xs`. -/
structure Inside (xs : List UInt8) (it : UbxCfgValgetIterator) : Prop where
  length_eq : it.payloadLength = xs.length
  length_le : xs.length ≤ 65535
  offset_le : it.offset ≤ xs.length

variable {P : Platform} {frame : UbxFrame} {xs : List UInt8} {it : UbxCfgValgetIterator}

/-- It stands in front of the rest of `xs`, whatever lies behind `xs`. -/
theorem Inside.at (h : Inside xs it) (more : List UInt8) :
    At (xs ++ more) (onPayload it (some (xs ++ more))) (xs.drop it.offset) := by
  refine ⟨rfl, ?_, ?_, ?_, ?_⟩
  · show it.payloadLength ≤ (xs ++ more).length
    rw [h.length_eq, List.length_append]
    exact Nat.le_add_right ..
  · exact h.length_eq ▸ h.length_le
  · exact h.length_eq ▸ h.offset_le
  · show ((xs ++ more).take it.payloadLength).drop it.offset = _
    rw [h.length_eq, List.take_left]

/-- One call returns, and the same whatever lies behind `xs`. -/
theorem nextCall_front (h : Inside xs it) (item : Option UbxCfgValgetItem) :
    ∃ returned it', Inside xs it' ∧ ∀ more,
      nextCall P (some (onPayload it (some (xs ++ more)))) item
        = .ok (returned, some (onPayload it' (some (xs ++ more)))) := by
  cases item with
  | none => exact ⟨_, it, h, fun more => rfl⟩
  | some out =>
    -- what the call does depends on the bytes of `xs` left, and on nothing else
    by_cases hstarts : StartsItem (xs.drop it.offset)
    · obtain ⟨next, rest, hnext⟩ := hstarts
      have hlen := congrArg List.length hnext
      rw [List.length_drop, List.length_append, next.length_bytes] at hlen
      refine ⟨(.item, some next.decoded), it.past [next], ⟨h.length_eq, h.length_le, ?_⟩,
        fun more => ?_⟩
      · have hoffset := h.offset_le
        show it.offset + ([next].flatMap Item.bytes).length ≤ xs.length
        rw [List.flatMap_singleton, next.length_bytes]
        omega
      · have hat := h.at more
        rw [hnext] at hat
        rw [nextCall, next_item hat]
        rfl
    · refine ⟨(terminal (xs.drop it.offset), some out), it, h, ?_⟩
      intro more
      rw [nextCall, next_ends (h.at more) hstarts]
      rfl

/-- And so do any number of calls. -/
theorem nextCalls_front (h : Inside xs it) (items : List (Option UbxCfgValgetItem)) :
    ∃ returns it', Inside xs it' ∧ ∀ more,
      run (nextCall P) (some (onPayload it (some (xs ++ more)))) items
        = .ok (returns, some (onPayload it' (some (xs ++ more)))) := by
  induction items generalizing it with
  | nil => exact ⟨[], it, h, fun more => rfl⟩
  | cons item items ih =>
    obtain ⟨returned, it₁, h₁, hstep⟩ := nextCall_front (P := P) h item
    obtain ⟨returns, it₂, h₂, hrun⟩ := ih h₁
    exact ⟨returned :: returns, it₂, h₂, fun more => run_cons (hstep more) (hrun more)⟩

/-- The init refuses, or leaves the iterator inside the payload; either way it
does the same whatever lies behind `xs`. -/
theorem init_inside (hlen : frame.payloadLength.toNat = xs.length)
    (iterator : Option UbxCfgValgetIterator) :
    (∃ result, result ≠ UbxCfgDecodeResult.ok ∧ ∀ more, ubxCfgValgetIteratorInit
        (some (frame.withPayload (some (xs ++ more)))) iterator = .ok (result, iterator)) ∨
      ∃ it, Inside xs it ∧ ∀ more, ubxCfgValgetIteratorInit
        (some (frame.withPayload (some (xs ++ more)))) iterator
          = .ok (.ok, some (onPayload it (some (xs ++ more)))) := by
  cases iterator with
  | none => exact Or.inl ⟨.nullArgument, nofun, fun more => rfl⟩
  | some iterator =>
    simp only [ubxCfgValgetIteratorInit_front hlen]
    split
    next => exact Or.inl ⟨.wrongMessage, nofun, fun more => rfl⟩
    next =>
      split
      next => exact Or.inl ⟨.wrongLength, nofun, fun more => rfl⟩
      next hshort =>
        split
        next => exact Or.inl ⟨.wrongVersion, nofun, fun more => rfl⟩
        next =>
          split
          next => exact Or.inl ⟨.invalidLayer, nofun, fun more => rfl⟩
          next =>
            have hmax := frame.payloadLength.toNat_lt
            have hfour : 4 ≤ xs.length := by
              rw [← hlen]
              exact UInt16.not_lt.mp hshort
            exact Or.inr ⟨⟨none, frame.payloadLength.toNat, 4, byteAt xs 1, u16At xs 2⟩,
              ⟨hlen, by omega, hfour⟩, fun more => rfl⟩

theorem valgetWalk_confined (hlen : frame.payloadLength.toNat = xs.length)
    (iterator : Option UbxCfgValgetIterator) (items : List (Option UbxCfgValgetItem)) :
    Confined xs fun payload => valgetWalk P (some (frame.withPayload payload)) iterator items := by
  rcases init_inside hlen iterator with
    ⟨result, hne, hinit⟩ | ⟨it, hinside, hinit⟩
  · refine ⟨(result, []), ?_⟩
    intro more
    dsimp only
    rw [valgetWalk, hinit more, ok_bind]
    exact if_pos hne
  · obtain ⟨returns, it', -, hrun⟩ := nextCalls_front (P := P) hinside items
    refine ⟨(.ok, returns), ?_⟩
    intro more
    dsimp only
    rw [valgetWalk, hinit more, ok_bind]
    show (run (nextCall P) (some (onPayload it (some (xs ++ more)))) items >>= _) = _
    rw [hrun more]
    rfl

/-- A `NULL` payload is refused, so no item is asked for. -/
theorem valgetWalk_null (hpayload : frame.payload = none) (iterator : Option UbxCfgValgetIterator)
    (items : List (Option UbxCfgValgetItem)) :
    ∃ r, valgetWalk P (some frame) iterator items = .ok r := by
  obtain ⟨result, hne, hinit⟩ := ubxCfgValgetIteratorInit_null hpayload iterator
  refine ⟨(result, []), ?_⟩
  rw [valgetWalk, hinit, ok_bind]
  exact if_pos hne

/-! ## Every decoder -/

/-- Every decoder reads of the frame's payload only bytes below its length, with
any index, into any output, and so do any calls of the iterator. -/
structure DecodersReadWithin (P : Platform) (frame : UbxFrame) : Prop where
  ack : ∀ output, ReadsWithin frame fun frame => ubxAckDecode (some frame) output
  navPvt : ∀ output, ReadsWithin frame fun frame => ubxNavPvtDecode (some frame) output
  timTp : ∀ output, ReadsWithin frame fun frame => ubxTimTpDecode (some frame) output
  monVer : ∀ output, ReadsWithin frame fun frame => ubxMonVerDecode (some frame) output
  monVerExtension : ∀ index output,
    ReadsWithin frame fun frame => ubxMonVerExtensionDecode (some frame) index output
  monRxr : ∀ output, ReadsWithin frame fun frame => ubxMonRxrDecode (some frame) output
  monComms : ∀ output, ReadsWithin frame fun frame => ubxMonCommsDecode (some frame) output
  monCommsPort : ∀ index output,
    ReadsWithin frame fun frame => ubxMonCommsPortDecode (some frame) index output
  monRf : ∀ output, ReadsWithin frame fun frame => ubxMonRfDecode (some frame) output
  rxmRawx : ∀ output, ReadsWithin frame fun frame => ubxRxmRawxDecode (some frame) output
  rxmRawxMeasurement : ∀ index output,
    ReadsWithin frame fun frame => ubxRxmRawxMeasurementDecode (some frame) index output
  rxmSfrbx : ∀ output, ReadsWithin frame fun frame => ubxRxmSfrbxDecode (some frame) output
  rxmSfrbxWord : ∀ index output,
    ReadsWithin frame fun frame => ubxRxmSfrbxWordDecode (some frame) index output
  valget : ∀ iterator items,
    ReadsWithin frame fun frame => valgetWalk P (some frame) iterator items

theorem Delivered.decodersReadWithin (h : Delivered frame) (P : Platform) :
    DecodersReadWithin P frame where
  ack := ubxAckDecode_readsWithin h
  navPvt := ubxNavPvtDecode_readsWithin h
  timTp := ubxTimTpDecode_readsWithin h
  monVer := ubxMonVerDecode_readsWithin h
  monVerExtension := ubxMonVerExtensionDecode_readsWithin h
  monRxr := ubxMonRxrDecode_readsWithin h
  monComms := ubxMonCommsDecode_readsWithin h
  monCommsPort := ubxMonCommsPortDecode_readsWithin h
  monRf := ubxMonRfDecode_readsWithin h
  rxmRawx := ubxRxmRawxDecode_readsWithin h
  rxmRawxMeasurement := ubxRxmRawxMeasurementDecode_readsWithin h
  rxmSfrbx := ubxRxmSfrbxDecode_readsWithin h
  rxmSfrbxWord := ubxRxmSfrbxWordDecode_readsWithin h
  valget iterator items :=
    h.readsWithin (fun hnull _ => valgetWalk_null hnull iterator items)
      fun _ hlen => valgetWalk_confined hlen iterator items

/-! ## Delivered frames -/

/-- What the parser delivers: the buffer holds the payload, and where there is
no buffer the capacity is 0, so the payload is empty. -/
theorem delivered {buffer : Option (List UInt8)} {capacity : Nat} (hbuf : BufferOk buffer capacity)
    {calls : List ParserCall} {returns : List ParserReturn} {p : UbxParser}
    (hreach : Reaches P buffer capacity calls returns p) {byte : UInt8} {out : Option UbxFrame}
    {parser' : Option UbxParser}
    (hfeed : ubxParserFeed P (some p) byte out = .ok ((.frameComplete, some frame), parser')) :
    Delivered frame := by
  obtain ⟨start, hg, before, rfl⟩ := hreach.good hbuf
  obtain ⟨_, -, hfed⟩ := feed_inv hfeed
  obtain ⟨hs, ha, -, hout⟩ := hfed.complete rfl
  obtain ⟨_, -, rfl⟩ := Option.map_eq_some_iff.mp hout.symm
  rcases hg.progress with ⟨pending, hr, -, -⟩ | ⟨hs', -⟩
  · obtain ⟨payload, hle, hlength, hsupplies, -⟩ := hr.complete hs ha
    have hlen : p.payloadLength.toNat = payload.length := by
      rw [hlength, UInt16.toNat_ofNat', Nat.mod_eq_of_lt (by omega)]
    refine ⟨fun hnull => ?_, fun cells hcells => ?_⟩
    · -- without a buffer no payload byte can have been stored
      cases payload with
      | nil => exact hlength
      | cons byte rest =>
        have hload := hsupplies 0 (Nat.zero_lt_succ _)
        rw [show p.payloadBuffer = none from hnull] at hload
        exact nomatch hload
    · show p.payloadLength.toNat ≤ cells.length
      rw [hlen]
      rw [show p.payloadBuffer = some cells from hcells] at hsupplies
      exact hsupplies.length_le
  · rw [hs] at hs'
    exact nomatch hs'

/-- Other contents of the same buffer make no difference. -/
theorem Delivered.later (h : Delivered frame) {later : Option (List UInt8)}
    (hsize : later.map List.length = frame.payload.map List.length) :
    Delivered (frame.withPayload later) := by
  refine ⟨fun hnull => h.null ?_, fun cells hcells => ?_⟩
  · rw [show later = none from hnull] at hsize
    exact Option.map_eq_none_iff.mp hsize.symm
  · rw [show later = some cells from hcells] at hsize
    obtain ⟨cells', hpayload, hsame⟩ := Option.map_eq_some_iff.mp hsize.symm
    rw [UbxFrame.withPayload_payloadLength, ← hsame]
    exact h.readable cells' hpayload

/-- **Memory safety from the parser to the decoders.** Whatever was fed to a
parser, for every frame it delivers: a `NULL` payload has length 0, and every
decoder, with any index and output, reads of the payload only bytes below its
length, also when the buffer has other contents by then. -/
theorem decoders_read_within (P : Platform) {buffer : Option (List UInt8)} {capacity : Nat}
    (hbuf : BufferOk buffer capacity) {calls : List ParserCall} {returns : List ParserReturn}
    {p : UbxParser} (hreach : Reaches P buffer capacity calls returns p) {byte : UInt8}
    {out : Option UbxFrame} {frame : UbxFrame} {parser' : Option UbxParser}
    (hfeed : ubxParserFeed P (some p) byte out = .ok ((.frameComplete, some frame), parser')) :
    (frame.payload = none → frame.payloadLength = 0) ∧ DecodersReadWithin P frame ∧
      ∀ later : Option (List UInt8), later.map List.length = frame.payload.map List.length →
        DecodersReadWithin P (frame.withPayload later) := by
  have h := delivered hbuf hreach hfeed
  exact ⟨h.null, h.decodersReadWithin P, fun later hsize => (h.later hsize).decodersReadWithin P⟩

/-- An acknowledgement of message 6, 1, in a two-byte buffer. -/
theorem decoders_read_within_ack :
    DecodersReadWithin Platform.size32 ⟨5, 1, 2, some [6, 1]⟩ := by
  have hreach : Reaches Platform.size32 (some [0, 0]) 2
      ([0xB5, 0x62, 5, 1, 2, 0, 6, 1, 0x0F].map fun b => .feed b none)
      (List.replicate 9 (.fed .inProgress none))
      ⟨.checksumB, some [6, 1], 2, 2, 5, 1, 2, 0x0F, 0x38, 0x0F, 0⟩ := ⟨zeroParser, rfl⟩
  have hfeed : ubxParserFeed Platform.size32
      (some ⟨.checksumB, some [6, 1], 2, 2, 5, 1, 2, 0x0F, 0x38, 0x0F, 0⟩) 0x38
      (some ⟨0, 0, 0, none⟩)
        = .ok ((.frameComplete, some ⟨5, 1, 2, some [6, 1]⟩),
          some ⟨.sync1, some [6, 1], 2, 0, 0, 0, 0, 0, 0, 0, 0⟩) := rfl
  exact (decoders_read_within Platform.size32 twoCells_ok hreach hfeed).2.1

end Ubx.Decode
