import Ubx.Stream.Frames
import Ubx.Decode.Messages

/-!
# From the wire to the records

The parser and the decoders together. What a sender encodes and sends, among
noise, arrives as frames whose readings are the meanings of what was sent:
`telemetry` says so for whole streams. What else the parser's buffer holds, what
it held before, and what the outputs of the decoders held, shows nowhere.

A frame stands in the parser's buffer only until the buffer is written again, so
the frames here are what the caller sees when they are reported.
-/

namespace Ubx.Decode

open Lib Ubx.Stream

variable {frame : UbxFrame}

/-! ## Delivered frames -/

/-- An empty payload means nothing. -/
theorem meaning_nil (c i : UInt8) : meaning c i [] = none := by
  simp [meaning, AckShape, NavPvtShape, TimTpShape, MonVerShape, MonRxrShape, MonCommsShape,
    MonRfShape, RxmRawxShape, RxmSfrbxShape, @eq_comm Nat 0]

/-- Of a frame that all decoders refuse nothing is read. -/
theorem Refused.not_reads (h : Refused frame) (r : Reading) : ¬ Reads frame r := by
  intro hreads
  cases r with
  | ack ack => exact (h.ack (some ack)).not_ok (hreads ack)
  | navPvt pvt => exact (h.navPvt (some pvt)).not_ok (hreads pvt)
  | timTp tp => exact (h.timTp (some tp)).not_ok (hreads tp)
  | monVer ver _ => exact (h.monVer (some ver)).not_ok (hreads.1 ver)
  | monRxr rxr => exact (h.monRxr (some rxr)).not_ok (hreads rxr)
  | monComms comms _ => exact (h.monComms (some comms)).not_ok (hreads.1 comms)
  | monRf rf => exact (h.monRf (some rf)).not_ok (hreads rf)
  | rxmRawx rawx _ => exact (h.rxmRawx (some rawx)).not_ok (hreads.1 rawx)
  | rxmSfrbx sfrbx _ => exact (h.rxmSfrbx (some sfrbx)).not_ok (hreads.1 sfrbx)

/-- What is read off a delivered frame is what it means, with a payload or without. -/
theorem Delivered.reads_iff (h : Delivered frame) (r : Reading) :
    Reads frame r ↔ meaning frame.messageClass frame.messageId frame.delivered.payload
      = some r := by
  rw [UbxFrame.delivered]
  cases hpayload : frame.payload with
  | none =>
    rw [Option.getD_none, List.take_nil, meaning_nil]
    constructor
    · intro hreads
      exact absurd hreads ((h.refused hpayload).not_reads r)
    · intro hnone
      cases hnone
  | some cells =>
    obtain ⟨hsplit, hlen⟩ := h.readable.split hpayload
    have hholds : Holds frame (cells.take frame.payloadLength.toNat) := ⟨hlen, _, hsplit⟩
    exact ⟨meaning_of_reads hholds, reads_of_meaning hholds⟩

/-- A frame that shows a payload of the length it says is a delivered one. -/
theorem delivered_of_shown {c i : UInt8} {payload : List UInt8} (hlen : payload.length ≤ 65535)
    (hshown : frame.delivered = ⟨c, i, UInt16.ofNat payload.length, payload⟩) :
    Delivered frame := by
  rw [UbxFrame.delivered] at hshown
  injection hshown with _ _ hlength hpayload
  have hnat : frame.payloadLength.toNat = payload.length := by
    rw [hlength, UInt16.toNat_ofNat', Nat.mod_eq_of_lt (by omega)]
  constructor
  · intro hnull
    rw [hnull, Option.getD_none, List.take_nil] at hpayload
    rw [hlength, ← hpayload]
    rfl
  · intro cells hcells
    rw [hcells, Option.getD_some] at hpayload
    have htake := congrArg List.length hpayload
    rw [List.length_take] at htake
    omega

/-! ## Streams -/

/-- The caller's own frames that were completed. What they show is `shownFrames`
(`deliveredFrames_shown`); the decoders take the frames themselves. -/
def deliveredFrames (outs : List (UbxParseResult × Option UbxFrame)) : List UbxFrame :=
  outs.filterMap fun out => if out.1 = .frameComplete then out.2 else none

/-- What a piece of a stream delivers to a parser of that capacity. -/
def sent (capacity : Nat) : Segment → Option Stream.Delivered
  | .noise _ => none
  | .encoded messageClass messageId payload _ =>
    if payload.length ≤ capacity then
      some ⟨messageClass, messageId, UInt16.ofNat payload.length, payload⟩
    else none

theorem sent_eq_some {capacity : Nat} {segment : Segment} {d : Stream.Delivered}
    (h : sent capacity segment = some d) :
    ∃ c i payload bytes, segment = .encoded c i payload bytes ∧
      d = ⟨c, i, UInt16.ofNat payload.length, payload⟩ := by
  cases segment with
  | noise => cases h
  | encoded c i payload bytes =>
    have hsent : (if payload.length ≤ capacity then
        some (⟨c, i, UInt16.ofNat payload.length, payload⟩ : Stream.Delivered) else none)
          = some d := h
    split at hsent
    next => exact ⟨c, i, payload, bytes, rfl, (Option.some.inj hsent).symm⟩
    next => cases hsent

/-- The delivered frames show what the reports show. -/
theorem deliveredFrames_shown (outs : List (UbxParseResult × Option UbxFrame)) :
    (deliveredFrames outs).map UbxFrame.delivered = shownFrames (outs.map observe) := by
  induction outs with
  | nil => rfl
  | cons out outs ih =>
    obtain ⟨code, frame⟩ := out
    rw [deliveredFrames] at ih ⊢
    cases code with
    | frameComplete =>
      cases frame with
      | none => exact ih
      | some frame => exact congrArg (frame.delivered :: ·) ih
    | _ => exact ih

/-- Only results show anything. -/
theorem results_shown (reports : List Report) :
    shownFrames (results reports) = shownFrames reports := by
  rw [shownFrames, results, List.filterMap_filter]
  apply List.filterMap_congr
  intro report _
  cases report with
  | inProgress => rfl
  | _ => rfl

/-- A piece of a stream shows what it delivers. -/
theorem result_shown (capacity : Nat) (segment : Segment) :
    (segment.result capacity).bind Report.shown = sent capacity segment := by
  cases segment with
  | noise => rfl
  | encoded c i payload bytes =>
    show (frameReport capacity c i payload).shown = if payload.length ≤ capacity then _ else _
    unfold frameReport
    split
    next => rfl
    next => rfl

/-- **Of a stream of encoded frames and noise** the frames that fit are delivered. -/
theorem stream_delivers {P : Platform} {p : UbxParser} (hP : 17 ≤ P.sizeBits) (hb : BufferInv p)
    (hs : p.state = .sync1) {segments : List Segment}
    (hvalid : ∀ segment ∈ segments, segment.Valid P) (hapart : segments.IsChain Segment.Apart)
    {inputs : List (UInt8 × Option UbxFrame)}
    (hinputs : inputs.map Prod.fst = segments.flatMap Segment.bytes)
    (hframes : ∀ input ∈ inputs, input.2.isSome) :
    ∃ outs p', run (feedStep P) (some p) inputs = .ok (outs, some p') ∧
      (deliveredFrames outs).map UbxFrame.delivered
        = segments.filterMap (sent p.payloadCapacity) := by
  obtain ⟨outs, p', hrun, ⟨-, hreports⟩, -⟩ := run_follows hP hb (.sync1 hs) inputs
  have hresults := results_segments p.payloadCapacity segments [] (Or.inl rfl) (fun _ _ => rfl)
    hvalid hapart
  refine ⟨outs, p', hrun, ?_⟩
  rw [deliveredFrames_shown, ← results_shown, hreports hframes, hinputs, hresults, shownFrames,
    List.filterMap_filterMap]
  exact List.filterMap_congr fun segment _ => result_shown p.payloadCapacity segment

/-- **From the wire to the decoders.** Of a stream of encoded frames and noise the
parser delivers the frames that fit its buffer, in order and nothing else, and
what the decoders read off each is what its class, id and payload mean. -/
theorem telemetry {P : Platform} {p : UbxParser} (hP : 17 ≤ P.sizeBits) (hb : BufferInv p)
    (hs : p.state = .sync1) {segments : List Segment}
    (hvalid : ∀ segment ∈ segments, segment.Valid P) (hapart : segments.IsChain Segment.Apart)
    {inputs : List (UInt8 × Option UbxFrame)}
    (hinputs : inputs.map Prod.fst = segments.flatMap Segment.bytes)
    (hframes : ∀ input ∈ inputs, input.2.isSome) :
    ∃ outs p', run (feedStep P) (some p) inputs = .ok (outs, some p') ∧
      (deliveredFrames outs).map UbxFrame.delivered = segments.filterMap (sent p.payloadCapacity) ∧
      ∀ frame ∈ deliveredFrames outs, ∀ r, Reads frame r ↔
        meaning frame.messageClass frame.messageId frame.delivered.payload = some r := by
  obtain ⟨outs, p', hrun, hsent⟩ := stream_delivers hP hb hs hvalid hapart hinputs hframes
  refine ⟨outs, p', hrun, hsent, ?_⟩
  intro frame hframe r
  have hmem : frame.delivered ∈ segments.filterMap (sent p.payloadCapacity) := by
    rw [← hsent]
    exact List.mem_map_of_mem hframe
  obtain ⟨segment, hsegment, hshown⟩ := List.mem_filterMap.mp hmem
  obtain ⟨c, i, payload, bytes, rfl, hdelivered⟩ := sent_eq_some hshown
  obtain ⟨hlen, -⟩ := encodes_eq (hvalid _ hsegment)
  exact (delivered_of_shown hlen hdelivered).reads_iff r

/-- Noise that holds a stray sync byte, an acknowledgement, and a frame that is none. -/
theorem telemetry_ack :
    ∃ outs p', run (feedStep Platform.size32) (some zeroParser)
        (feeds ([0xB5] ++ frameBytes 5 1 [6, 0x8A] ++ frameBytes 5 1 [6]) (some ⟨0, 0, 0, none⟩))
          = .ok (outs, some p') ∧
      (deliveredFrames outs).map UbxFrame.delivered = [⟨5, 1, 2, [6, 0x8A]⟩, ⟨5, 1, 1, [6]⟩] ∧
      ∀ frame ∈ deliveredFrames outs, ∀ r, Reads frame r ↔
        meaning frame.messageClass frame.messageId frame.delivered.payload = some r := by
  have hvalid : ∀ segment ∈ [Segment.noise [0xB5],
      .encoded 5 1 [6, 0x8A] (frameBytes 5 1 [6, 0x8A]), .encoded 5 1 [6] (frameBytes 5 1 [6])],
      segment.Valid Platform.size32 := by
    intro segment hsegment
    rcases List.mem_cons.mp hsegment with rfl | hsegment
    · rintro (_ | k) ⟨hfirst, hsecond⟩
      · cases hsecond
      · cases hfirst
    · rcases List.mem_cons.mp hsegment with rfl | hsegment
      · exact encodes_frameBytes 5 1 (by simp) (by decide)
      · rw [List.mem_singleton.mp hsegment]
        exact encodes_frameBytes 5 1 (by simp) (by decide)
  exact telemetry (P := Platform.size32) (by decide) zeroParser_buffer rfl hvalid
    (by simp [Segment.Apart]) (map_fst_feeds _ (some ⟨0, 0, 0, none⟩)) (feeds_isSome _ _)

/-! ## Messages -/

/-- What the encoder was given for a piece of a stream. -/
def carried : Segment → Option (UInt8 × UInt8 × List UInt8)
  | .noise _ => none
  | .encoded messageClass messageId payload _ => some (messageClass, messageId, payload)

/-- A stream delivers what it carries, where all of it fits. -/
theorem sent_carried {capacity : Nat} {segments : List Segment}
    (hfit : ∀ c i payload, (c, i, payload) ∈ segments.filterMap carried →
      payload.length ≤ capacity) :
    segments.filterMap (sent capacity) = (segments.filterMap carried).map fun (c, i, payload) =>
      (⟨c, i, UInt16.ofNat payload.length, payload⟩ : Stream.Delivered) := by
  rw [List.map_filterMap]
  apply List.filterMap_congr
  intro segment hsegment
  cases segment with
  | noise => rfl
  | encoded c i payload bytes =>
    exact if_pos (hfit c i payload (List.mem_filterMap.mpr ⟨_, hsegment, rfl⟩))

/-- Lists with the same images correspond one by one. -/
theorem pairs_of_map {α β γ : Type} {f : α → γ} {g : β → γ} {xs : List α} {ys : List β}
    (h : xs.map f = ys.map g) : List.Forall₂ (fun x y => f x = g y) xs ys := by
  rw [← List.forall₂_map_right_iff (R := fun x z => f x = z), ← h, List.forall₂_map_right_iff]
  exact List.forall₂_same.mpr fun _ _ => rfl

/-- What is carried was encoded, so it has the length of a frame's payload. -/
theorem carried_le {P : Platform} {segments : List Segment}
    (hvalid : ∀ segment ∈ segments, segment.Valid P) {c i : UInt8} {payload : List UInt8}
    (h : (c, i, payload) ∈ segments.filterMap carried) : payload.length ≤ 65535 := by
  obtain ⟨segment, hsegment, hcarried⟩ := List.mem_filterMap.mp h
  cases segment with
  | noise => cases hcarried
  | encoded =>
    cases hcarried
    exact (encodes_eq (hvalid _ hsegment)).1

/-- What a stream carries, where all of it fits, is read off its frames one by one. -/
theorem carried_read {P : Platform} {p : UbxParser} (hP : 17 ≤ P.sizeBits) (hb : BufferInv p)
    (hs : p.state = .sync1) {segments : List Segment}
    (hvalid : ∀ segment ∈ segments, segment.Valid P) (hapart : segments.IsChain Segment.Apart)
    (hfit : ∀ c i payload, (c, i, payload) ∈ segments.filterMap carried →
      payload.length ≤ p.payloadCapacity)
    {inputs : List (UInt8 × Option UbxFrame)}
    (hinputs : inputs.map Prod.fst = segments.flatMap Segment.bytes)
    (hframes : ∀ input ∈ inputs, input.2.isSome) :
    ∃ outs p', run (feedStep P) (some p) inputs = .ok (outs, some p') ∧
      List.Forall₂ (fun frame m => ∀ r, Reads frame r ↔ meaning m.1 m.2.1 m.2.2 = some r)
        (deliveredFrames outs) (segments.filterMap carried) := by
  obtain ⟨outs, p', hrun, hsent⟩ := stream_delivers hP hb hs hvalid hapart hinputs hframes
  rw [sent_carried hfit] at hsent
  refine ⟨outs, p', hrun, ?_⟩
  have hpairs := pairs_of_map hsent
  rw [List.forall₂_iff_zip] at hpairs ⊢
  refine ⟨hpairs.1, ?_⟩
  rintro frame ⟨c, i, payload⟩ hmem r
  have hdelivered := hpairs.2 hmem
  have hlen := carried_le hvalid (List.of_mem_zip hmem).2
  have hclass : frame.messageClass = c := congrArg Stream.Delivered.messageClass hdelivered
  have hid : frame.messageId = i := congrArg Stream.Delivered.messageId hdelivered
  have hpayload : frame.delivered.payload = payload :=
    congrArg Stream.Delivered.payload hdelivered
  rw [(delivered_of_shown hlen hdelivered).reads_iff, hclass, hid, hpayload]

/-- **Messages arrive.** Whatever messages a receiver sends, of any kinds and with
noise between them, if they fit the parser's buffer then the parser delivers one
frame for each, in order, and what the decoders read off it is the message. -/
theorem messages_arrive {P : Platform} {p : UbxParser} (hP : 17 ≤ P.sizeBits) (hb : BufferInv p)
    (hs : p.state = .sync1) {messages : List Message}
    (hfit : ∀ m ∈ messages, m.payload.length ≤ p.payloadCapacity) {segments : List Segment}
    (hvalid : ∀ segment ∈ segments, segment.Valid P) (hapart : segments.IsChain Segment.Apart)
    (hcarried : segments.filterMap carried
      = messages.map (fun m => (m.messageClass, m.messageId, m.payload)))
    {inputs : List (UInt8 × Option UbxFrame)}
    (hinputs : inputs.map Prod.fst = segments.flatMap Segment.bytes)
    (hframes : ∀ input ∈ inputs, input.2.isSome) :
    ∃ outs p', run (feedStep P) (some p) inputs = .ok (outs, some p') ∧
      List.Forall₂ (fun frame m => ∀ r, Reads frame r ↔ r = m.reading) (deliveredFrames outs)
        messages := by
  have hfits : ∀ c i payload, (c, i, payload) ∈ segments.filterMap carried →
      payload.length ≤ p.payloadCapacity := by
    intro c i payload hmem
    rw [hcarried] at hmem
    obtain ⟨m, hm, heq⟩ := List.mem_map.mp hmem
    cases heq
    exact hfit m hm
  obtain ⟨outs, p', hrun, hread⟩ := carried_read hP hb hs hvalid hapart hfits hinputs hframes
  refine ⟨outs, p', hrun, ?_⟩
  rw [hcarried, List.forall₂_map_right_iff] at hread
  refine hread.imp ?_
  intro frame m hreads r
  rw [hreads, meaning_payload, Option.some.injEq]
  exact eq_comm

/-- Two acknowledgements with a stray byte between them. -/
theorem messages_arrive_two :
    ∃ outs p', run (feedStep Platform.size32) (some zeroParser)
        (feeds (frameBytes 5 1 [6, 0x8A] ++ [0] ++ frameBytes 5 0 [6, 0x8B])
          (some ⟨0, 0, 0, none⟩)) = .ok (outs, some p') ∧
      List.Forall₂ (fun frame m => ∀ r, Reads frame r ↔ r = Message.reading m)
        (deliveredFrames outs) [.ack ⟨.ack, 6, 0x8A⟩, .ack ⟨.nak, 6, 0x8B⟩] := by
  have hvalid : ∀ segment ∈ [Segment.encoded 5 1 [6, 0x8A] (frameBytes 5 1 [6, 0x8A]), .noise [0],
      .encoded 5 0 [6, 0x8B] (frameBytes 5 0 [6, 0x8B])], segment.Valid Platform.size32 := by
    intro segment hsegment
    rcases List.mem_cons.mp hsegment with rfl | hsegment
    · exact encodes_frameBytes 5 1 (by simp) (by decide)
    · rcases List.mem_cons.mp hsegment with rfl | hsegment
      · rintro (_ | k) ⟨hfirst, hsecond⟩
        · cases hsecond
        · cases hfirst
      · rw [List.mem_singleton.mp hsegment]
        exact encodes_frameBytes 5 0 (by simp) (by decide)
  have hfit : ∀ m ∈ [Message.ack ⟨.ack, 6, 0x8A⟩, .ack ⟨.nak, 6, 0x8B⟩],
      m.payload.length ≤ zeroParser.payloadCapacity := by
    intro m hm
    rcases List.mem_cons.mp hm with rfl | hm
    · exact Nat.le_refl 2
    · rw [List.mem_singleton.mp hm]
      exact Nat.le_refl 2
  exact messages_arrive (P := Platform.size32) (by decide) zeroParser_buffer rfl hfit hvalid
    (by simp [Segment.Apart]) rfl (map_fst_feeds _ (some ⟨0, 0, 0, none⟩)) (feeds_isSome _ _)

end Ubx.Decode
