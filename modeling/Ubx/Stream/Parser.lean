import Ubx.Internal
import Ubx.Lib.Machine

/-!
# The byte-by-byte parser, `src/ubx_parser.c`

`ubxParserFeed` is `ubx_parser_feed` branch by branch. The parser record and
the frame record are the C structs; the payload buffer is the object the
parser's pointer refers to, with its contents, so that a frame whose `payload`
is set to `parser->payload_buffer` shows the contents at that moment.

The C `state` is an enumeration object: it may hold a value that has no name,
which is what the `default` arm is for. `UbxParserState.other` is such a value.

A session with a parser is a list of `ParserCall`s run from `ubxParserInit`:
feeds of any byte, with or without a frame to fill in, and resets.
-/

namespace Ubx.Stream

open Lib

/-- `ubx_parse_result_t`. -/
inductive UbxParseResult where
  | inProgress
  | frameComplete
  | checksumError
  | oversize
  deriving DecidableEq, Repr

/-- `ubx_parser_state_t`, with the values that name no state. -/
inductive UbxParserState where
  | sync1
  | sync2
  | class_
  | id
  | length1
  | length2
  | payload
  | checksumA
  | checksumB
  | discard
  | other (value : Nat)
  deriving DecidableEq, Repr

/-- `ubx_frame_t`. -/
structure UbxFrame where
  messageClass : UInt8
  messageId : UInt8
  payloadLength : UInt16
  payload : Option (List UInt8)
  deriving DecidableEq, Repr

/-- The payload pointer, where there is one, refers to at least
`payload_length` bytes. -/
def UbxFrame.Readable (frame : UbxFrame) : Prop :=
  ∀ cells, frame.payload = some cells → frame.payloadLength.toNat ≤ cells.length

/-- The frame with another payload pointer. -/
def UbxFrame.withPayload (frame : UbxFrame) (payload : Option (List UInt8)) : UbxFrame :=
  { frame with payload := payload }

@[simp] theorem UbxFrame.withPayload_payload (frame : UbxFrame) (payload : Option (List UInt8)) :
    (frame.withPayload payload).payload = payload := rfl

@[simp] theorem UbxFrame.withPayload_payloadLength (frame : UbxFrame)
    (payload : Option (List UInt8)) :
    (frame.withPayload payload).payloadLength = frame.payloadLength := rfl

/-- A readable payload is its first `payload_length` bytes and the rest of the buffer. -/
theorem UbxFrame.Readable.split {frame : UbxFrame} (h : frame.Readable) {cells : List UInt8}
    (hpayload : frame.payload = some cells) :
    frame = frame.withPayload (some (cells.take frame.payloadLength.toNat
        ++ cells.drop frame.payloadLength.toNat)) ∧
      frame.payloadLength.toNat = (cells.take frame.payloadLength.toNat).length := by
  constructor
  · rw [List.take_append_drop, ← hpayload]
    rfl
  · rw [List.length_take, Nat.min_eq_left (h cells hpayload)]

/-- `ubx_parser_t`. -/
structure UbxParser where
  state : UbxParserState
  payloadBuffer : Option (List UInt8)
  payloadCapacity : Nat
  payloadIndex : Nat
  messageClass : UInt8
  messageId : UInt8
  payloadLength : UInt16
  checksumA : UInt8
  checksumB : UInt8
  receivedChecksumA : UInt8
  discardRemaining : Nat
  deriving DecidableEq, Repr

/-- The assignments that `ubx_start_frame` and `ubx_parser_reset` share. -/
def UbxParser.cleared (parser : UbxParser) : UbxParser :=
  { parser with
    payloadIndex := 0
    messageClass := 0
    messageId := 0
    payloadLength := 0
    checksumA := 0
    checksumB := 0
    receivedChecksumA := 0
    discardRemaining := 0 }

/-- `ubx_checksum_update(&parser->checksum_a, &parser->checksum_b, byte)`. -/
def UbxParser.update (parser : UbxParser) (byte : UInt8) : UbxParser :=
  let checksum := ubxChecksumUpdate (parser.checksumA, parser.checksumB) byte
  { parser with checksumA := checksum.1, checksumB := checksum.2 }

/-- `ubx_start_frame`. -/
def ubxStartFrame (parser : UbxParser) : UbxParser :=
  { parser.cleared with state := .class_ }

/-- `ubx_parser_reset` of a parser there is. -/
def UbxParser.reset (parser : UbxParser) : UbxParser :=
  { parser.cleared with state := .sync1 }

/-- `ubx_parser_reset`. -/
def ubxParserReset (parser : Option UbxParser) : Option UbxParser :=
  parser.map UbxParser.reset

/-- `ubx_parser_init`: a `NULL` buffer gets capacity 0, whatever is claimed. -/
def ubxParserInit (parser : Option UbxParser) (payloadBuffer : Option (List UInt8))
    (payloadCapacity : Nat) : Option UbxParser :=
  parser.map fun parser =>
    { parser with
      payloadBuffer := payloadBuffer
      payloadCapacity := if payloadBuffer.isSome then payloadCapacity else 0 }.reset

/-- `ubx_parser_feed`: the returned value, the caller's frame and the parser,
each as the call leaves it. -/
def ubxParserFeed (P : Platform) (parser : Option UbxParser) (byte : UInt8)
    (frame : Option UbxFrame) : Run ((UbxParseResult × Option UbxFrame) × Option UbxParser) :=
  match parser with
  | none => return ((.inProgress, frame), none)
  | some parser =>
    match parser.state with
    | .sync1 =>
      if byte = 0xB5 then
        return ((.inProgress, frame), some { parser with state := .sync2 })
      else
        return ((.inProgress, frame), some parser)
    | .sync2 =>
      if byte = 0x62 then
        return ((.inProgress, frame), some (ubxStartFrame parser))
      else if byte ≠ 0xB5 then
        return ((.inProgress, frame), some { parser with state := .sync1 })
      else
        return ((.inProgress, frame), some parser)
    | .class_ =>
      return ((.inProgress, frame),
        some { ({ parser with messageClass := byte }.update byte) with state := .id })
    | .id =>
      return ((.inProgress, frame),
        some { ({ parser with messageId := byte }.update byte) with state := .length1 })
    | .length1 =>
      return ((.inProgress, frame),
        some { ({ parser with payloadLength := byte.toUInt16 }.update byte) with
          state := .length2 })
    | .length2 =>
      let parser :=
        { parser with payloadLength := parser.payloadLength ||| (byte.toUInt16 <<< 8) }.update byte
      -- the payload plus the checksum bytes are discarded
      if parser.payloadLength.toNat > parser.payloadCapacity then
        return ((.oversize, frame),
          some { parser with
            discardRemaining := P.sizeAdd parser.payloadLength.toNat 2
            state := .discard })
      else if parser.payloadLength = (0 : UInt16) then
        return ((.inProgress, frame), some { parser with state := .checksumA })
      else
        return ((.inProgress, frame), some { parser with payloadIndex := 0, state := .payload })
    | .payload => do
      let buffer ← store parser.payloadBuffer parser.payloadIndex byte
      let parser :=
        { parser with
          payloadBuffer := buffer
          payloadIndex := P.sizeAdd parser.payloadIndex 1 }.update byte
      if parser.payloadIndex ≥ parser.payloadLength.toNat then
        return ((.inProgress, frame), some { parser with state := .checksumA })
      else
        return ((.inProgress, frame), some parser)
    | .checksumA =>
      return ((.inProgress, frame),
        some { parser with receivedChecksumA := byte, state := .checksumB })
    | .checksumB =>
      if parser.receivedChecksumA = parser.checksumA ∧ byte = parser.checksumB then
        let complete : UbxFrame :=
          { messageClass := parser.messageClass
            messageId := parser.messageId
            payloadLength := parser.payloadLength
            payload := parser.payloadBuffer }
        return ((.frameComplete, frame.map fun _ => complete), some parser.reset)
      else
        return ((.checksumError, frame), some parser.reset)
    | .discard =>
      let remaining :=
        if parser.discardRemaining > 0 then parser.discardRemaining - 1
        else parser.discardRemaining
      if remaining = 0 then
        return ((.inProgress, frame), some { parser with discardRemaining := remaining }.reset)
      else
        return ((.inProgress, frame), some { parser with discardRemaining := remaining })
    | .other _ => return ((.inProgress, frame), some parser.reset)

/-! ## What a feed did -/

/-- What is known of a feed that returned: it left the capacity as it is, stored
nothing but a payload byte, and answered with `FRAME_COMPLETE` or `OVERSIZE`
only where a frame was complete or did not fit. -/
structure Fed (P : Platform) (p : UbxParser) (byte : UInt8) (frame : Option UbxFrame)
    (out : UbxParseResult × Option UbxFrame) (p' : UbxParser) : Prop where
  capacity : p'.payloadCapacity = p.payloadCapacity
  kept : p.state ≠ .payload → p'.payloadBuffer = p.payloadBuffer
  stored : p.state = .payload → store p.payloadBuffer p.payloadIndex byte = .ok p'.payloadBuffer
  complete : out.1 = .frameComplete →
    p.state = .checksumB ∧ p.receivedChecksumA = p.checksumA ∧ byte = p.checksumB ∧
      out.2 = frame.map fun _ =>
        ⟨p.messageClass, p.messageId, p.payloadLength, p.payloadBuffer⟩
  oversize : out.1 = .oversize →
    p.payloadCapacity < p'.payloadLength.toNat ∧ p'.state = .discard ∧
      p'.discardRemaining = P.sizeAdd p'.payloadLength.toNat 2

/-- The one case split over the states; what follows goes by `Fed`. -/
theorem feed_inv {P : Platform} {p : UbxParser} {byte : UInt8} {frame : Option UbxFrame}
    {out : UbxParseResult × Option UbxFrame} {parser' : Option UbxParser}
    (hfeed : ubxParserFeed P (some p) byte frame = .ok (out, parser')) :
    ∃ p', parser' = some p' ∧ Fed P p byte frame out p' := by
  unfold ubxParserFeed at hfeed
  dsimp only at hfeed
  cases hs : p.state with
  | length2 =>
    simp only [hs] at hfeed
    have hkept : p.state ≠ .payload := by simp [hs]
    split at hfeed
    next hover =>
      cases hfeed
      exact ⟨_, rfl, rfl, fun _ => rfl, fun h => absurd h hkept, by simp,
        fun _ => ⟨hover, rfl, rfl⟩⟩
    next =>
      split at hfeed
      all_goals
        cases hfeed
        exact ⟨_, rfl, rfl, fun _ => rfl, fun h => absurd h hkept, by simp, by simp⟩
  | payload =>
    simp only [hs] at hfeed
    obtain ⟨buffer, hstore, hfeed⟩ := bind_eq_ok.mp hfeed
    split at hfeed
    all_goals
      cases hfeed
      exact ⟨_, rfl, rfl, fun h => absurd hs h, fun _ => hstore, by simp, by simp⟩
  | checksumB =>
    simp only [hs] at hfeed
    have hkept : p.state ≠ .payload := by simp [hs]
    split at hfeed
    next hok =>
      cases hfeed
      exact ⟨_, rfl, rfl, fun _ => rfl, fun h => absurd h hkept,
        fun _ => ⟨hs, hok.1, hok.2, rfl⟩, by simp⟩
    next =>
      cases hfeed
      exact ⟨_, rfl, rfl, fun _ => rfl, fun h => absurd h hkept, by simp, by simp⟩
  | _ =>
    simp only [hs] at hfeed
    have hkept : p.state ≠ .payload := by simp [hs]
    repeat' split at hfeed
    all_goals
      cases hfeed
      exact ⟨_, rfl, rfl, fun _ => rfl, fun h => absurd h hkept, by simp, by simp⟩

/-! ## Sessions -/

/-- A call the owner of a parser makes. -/
inductive ParserCall where
  | feed (byte : UInt8) (frame : Option UbxFrame)
  | reset

/-- What the owner gets back from a call. -/
inductive ParserReturn where
  | fed (result : UbxParseResult) (frame : Option UbxFrame)
  | wasReset
  deriving DecidableEq

/-- One call. -/
def ParserCall.exec (P : Platform) (parser : Option UbxParser) :
    ParserCall → Run (ParserReturn × Option UbxParser)
  | .feed byte frame => do
    let ((result, frame), parser) ← ubxParserFeed P parser byte frame
    return (.fed result frame, parser)
  | .reset => return (.wasReset, ubxParserReset parser)

/-- A byte and the caller's frame, fed. -/
def feedStep (P : Platform) (parser : Option UbxParser) (input : UInt8 × Option UbxFrame) :
    Run ((UbxParseResult × Option UbxFrame) × Option UbxParser) :=
  ubxParserFeed P parser input.1 input.2

/-- Bytes to feed, each with the same frame to fill in. -/
def feeds (bytes : List UInt8) (frame : Option UbxFrame) : List (UInt8 × Option UbxFrame) :=
  bytes.map fun byte => (byte, frame)

theorem map_fst_feeds (bytes : List UInt8) (frame : Option UbxFrame) :
    (feeds bytes frame).map Prod.fst = bytes := by
  rw [feeds, List.map_map]
  exact List.map_id bytes

theorem feeds_isSome (bytes : List UInt8) (frame : UbxFrame) :
    ∀ input ∈ feeds bytes (some frame), input.2.isSome := by
  intro input hinput
  obtain ⟨byte, -, rfl⟩ := List.mem_map.mp hinput
  rfl

/-- The parser that a list of calls, made after `ubx_parser_init`, leads to. -/
def Reaches (P : Platform) (payloadBuffer : Option (List UInt8)) (payloadCapacity : Nat)
    (calls : List ParserCall) (returns : List ParserReturn) (parser : UbxParser) : Prop :=
  ∃ before,
    run (ParserCall.exec P) (ubxParserInit (some before) payloadBuffer payloadCapacity) calls
      = .ok (returns, some parser)

/-- What the caller of `ubx_parser_init` is asked for: a buffer that is there
has the cells it is said to have. -/
def BufferOk (payloadBuffer : Option (List UInt8)) (payloadCapacity : Nat) : Prop :=
  ∀ cells, payloadBuffer = some cells → payloadCapacity ≤ cells.length

/-- The capacity a parser works with: 0 for a `NULL` buffer. -/
def capacityOf (payloadBuffer : Option (List UInt8)) (payloadCapacity : Nat) : Nat :=
  if payloadBuffer.isSome then payloadCapacity else 0

/-- A parser record of zero bytes, with a two-byte buffer, for the examples. -/
def zeroParser : UbxParser :=
  ⟨.sync1, some [0, 0], 2, 0, 0, 0, 0, 0, 0, 0, 0⟩

theorem twoCells_ok : BufferOk (some [0, 0]) 2 := fun _ h =>
  Option.some.inj h ▸ Nat.le_refl _

end Ubx.Stream
