import Ubx.Stream.Assembler
import Ubx.Stream.Parser

/-!
# The parser follows the assembler

`Rep p pending` ties the parser record to the list of bytes of the frame in
progress: one clause a state, giving what the fields that the state uses must
hold. `BufferInv` is what the payload buffer must be, in every state.

`feed_step` is the one place where the branches of `ubx_parser_feed` are gone
through. Everything said later about runs of the parser comes from it, through
`run_simulates` or `run_inv`.
-/

namespace Ubx.Stream

open Lib

/-- The buffer has the cells the capacity promises, and a `NULL` buffer has
capacity 0. -/
structure BufferInv (p : UbxParser) : Prop where
  null : p.payloadBuffer = none → p.payloadCapacity = 0
  cells : ∀ cells, p.payloadBuffer = some cells → p.payloadCapacity ≤ cells.length

/-- The running sums are those of the bytes since the sync pair, and the index
counts those behind the header. -/
structure Started (p : UbxParser) (body : List UInt8) : Prop where
  sums : (p.checksumA, p.checksumB) = Fletcher.sums body
  index : p.payloadIndex = body.length - 4

/-- The header fields are those received, the frame fits the capacity, and the
front of the buffer is the payload received so far. -/
structure Header (p : UbxParser) (c i l1 l2 : UInt8) (data : List UInt8) : Prop where
  class_ : p.messageClass = c
  id : p.messageId = i
  length : p.payloadLength = UInt16.ofNat (leValue [l1, l2])
  fits : leValue [l1, l2] ≤ p.payloadCapacity
  buffer : (p.payloadBuffer.getD []).take data.length = data

/-- The parser record stands for the frame in progress. -/
inductive Rep (p : UbxParser) : List UInt8 → Prop where
  | sync1 : p.state = .sync1 → Rep p []
  | sync2 : p.state = .sync2 → Rep p [0xB5]
  | class_ : p.state = .class_ → Started p [] → Rep p [0xB5, 0x62]
  | id {c : UInt8} : p.state = .id → Started p [c] → p.messageClass = c → Rep p [0xB5, 0x62, c]
  | length1 {c i : UInt8} : p.state = .length1 → Started p [c, i] → p.messageClass = c →
      p.messageId = i → Rep p [0xB5, 0x62, c, i]
  | length2 {c i l1 : UInt8} : p.state = .length2 → Started p [c, i, l1] → p.messageClass = c →
      p.messageId = i → p.payloadLength = l1.toUInt16 → Rep p [0xB5, 0x62, c, i, l1]
  | payload {c i l1 l2 : UInt8} {data : List UInt8} : p.state = .payload →
      Started p ([c, i, l1, l2] ++ data) → Header p c i l1 l2 data →
      data.length < leValue [l1, l2] → Rep p (0xB5 :: 0x62 :: c :: i :: l1 :: l2 :: data)
  | checksumA {c i l1 l2 : UInt8} {data : List UInt8} : p.state = .checksumA →
      Started p ([c, i, l1, l2] ++ data) → Header p c i l1 l2 data →
      data.length = leValue [l1, l2] → Rep p (0xB5 :: 0x62 :: c :: i :: l1 :: l2 :: data)
  | checksumB {c i l1 l2 a : UInt8} {data : List UInt8} : p.state = .checksumB →
      Started p ([c, i, l1, l2] ++ data) → Header p c i l1 l2 data →
      data.length = leValue [l1, l2] → p.receivedChecksumA = a →
      Rep p (0xB5 :: 0x62 :: c :: i :: l1 :: l2 :: (data ++ [a]))
  | discard {c i l1 l2 : UInt8} {junk : List UInt8} : p.state = .discard →
      p.payloadLength = UInt16.ofNat (leValue [l1, l2]) →
      p.payloadCapacity < leValue [l1, l2] → junk.length < leValue [l1, l2] + 2 →
      p.discardRemaining = leValue [l1, l2] + 2 - junk.length →
      Rep p (0xB5 :: 0x62 :: c :: i :: l1 :: l2 :: junk)

/-! ## What the caller sees -/

/-- What a filled-in frame shows. -/
def UbxFrame.delivered (frame : UbxFrame) : Delivered :=
  { messageClass := frame.messageClass
    messageId := frame.messageId
    payloadLength := frame.payloadLength
    payload := (frame.payload.getD []).take frame.payloadLength.toNat }

/-- A delivered payload that is not empty stands at the front of the frame's buffer. -/
theorem UbxFrame.payload_of_delivered {frame : UbxFrame} {bytes : List UInt8}
    (hbytes : frame.delivered.payload = bytes) (hne : bytes ≠ []) :
    ∃ tail, frame.payload = some (bytes ++ tail) := by
  subst hbytes
  cases hpayload : frame.payload with
  | none =>
    rw [UbxFrame.delivered, hpayload, Option.getD_none, List.take_nil] at hne
    exact absurd rfl hne
  | some cells =>
    refine ⟨cells.drop frame.payloadLength.toNat, ?_⟩
    rw [UbxFrame.delivered, hpayload, Option.getD_some, List.take_append_drop]

/-- The caller's view of what `ubx_parser_feed` returned. -/
def observe : UbxParseResult × Option UbxFrame → Report
  | (.inProgress, _) => .inProgress
  | (.frameComplete, frame) => .frameComplete (frame.map UbxFrame.delivered)
  | (.checksumError, _) => .checksumError
  | (.oversize, _) => .oversize

/-- The call reports `report`: the result code is its code, a caller's frame is
filled in at a complete frame and left alone otherwise, and what it shows is
what is reported. -/
def Answers (p : UbxParser) (frame : Option UbxFrame) (report : Report)
    (out : UbxParseResult × Option UbxFrame) : Prop :=
  match report with
  | .inProgress => out = (.inProgress, frame)
  | .checksumError => out = (.checksumError, frame)
  | .oversize => out = (.oversize, frame)
  | .frameComplete none => False
  | .frameComplete (some d) =>
    d.payloadLength.toNat ≤ p.payloadCapacity ∧
    (p.payloadBuffer.getD []).take d.payloadLength.toNat = d.payload ∧
    out = (.frameComplete, frame.map fun _ =>
      ⟨d.messageClass, d.messageId, d.payloadLength, p.payloadBuffer⟩)

/-- A caller that gives a frame to fill in sees the report itself. -/
theorem Answers.observe {p : UbxParser} {frame : UbxFrame} {report : Report}
    {out : UbxParseResult × Option UbxFrame} (h : Answers p (some frame) report out) :
    observe out = report := by
  unfold Answers at h
  split at h
  next => rw [h, Stream.observe]
  next => rw [h, Stream.observe]
  next => rw [h, Stream.observe]
  next => exact h.elim
  next d =>
    obtain ⟨-, hpayload, rfl⟩ := h
    simp only [Stream.observe, Option.map_some, UbxFrame.delivered, hpayload]

/-! ## One byte -/

theorem length_value (l1 l2 : UInt8) :
    (UInt16.ofNat (leValue [l1, l2])).toNat = leValue [l1, l2] := by
  have h1 := l1.toNat_lt
  have h2 := l2.toNat_lt
  rw [UInt16.toNat_ofNat', Nat.mod_eq_of_lt]
  simp only [leValue_cons, leValue_nil]
  omega

theorem length_value_le (l1 l2 : UInt8) : leValue [l1, l2] ≤ 65535 := by
  have h1 := l1.toNat_lt
  have h2 := l2.toNat_lt
  simp only [leValue_cons, leValue_nil]
  omega

/-- One more byte into the running sums. -/
theorem Started.update {p : UbxParser} {body : List UInt8} (h : Started p body) (byte : UInt8) :
    ubxChecksumUpdate (p.checksumA, p.checksumB) byte = Fletcher.sums (body ++ [byte]) := by
  rw [h.sums, ubxChecksumUpdate_sums]

/-- In and behind the payload the index counts the payload bytes. -/
theorem Started.index_eq {p : UbxParser} {c i l1 l2 : UInt8} {data : List UInt8}
    (h : Started p ([c, i, l1, l2] ++ data)) : p.payloadIndex = data.length := by
  rw [h.index, List.length_append, Nat.add_comm]
  rfl

/-- Only the buffer and the capacity count. -/
theorem BufferInv.of_eq {p p' : UbxParser} (h : BufferInv p)
    (hbuffer : p'.payloadBuffer = p.payloadBuffer)
    (hcap : p'.payloadCapacity = p.payloadCapacity) : BufferInv p' := by
  constructor
  · rw [hbuffer, hcap]
    exact h.null
  · rw [hbuffer, hcap]
    exact h.cells

/-- `ubx_parser_reset` keeps the buffer and its capacity. -/
theorem BufferInv.reset {p : UbxParser} (h : BufferInv p) : BufferInv p.reset :=
  ⟨h.null, h.cells⟩

theorem zeroParser_buffer : BufferInv zeroParser :=
  ⟨fun h => (nomatch h), twoCells_ok⟩

theorem Rep.reset (p : UbxParser) : Rep p.reset [] := .sync1 rfl

variable {P : Platform} {p : UbxParser}

/-- What `feed_step` says of one call: the returned value reports what the
assembler does, and the parser goes on standing for the assembler's state. -/
def Follows (P : Platform) (p : UbxParser) (pending : List UInt8) (byte : UInt8)
    (frame : Option UbxFrame) : Prop :=
  ∃ out p', ubxParserFeed P (some p) byte frame = .ok (out, some p') ∧
    Answers p frame (assemble p.payloadCapacity pending byte).1 out ∧
    Rep p' (assemble p.payloadCapacity pending byte).2 ∧ BufferInv p' ∧
    p'.payloadCapacity = p.payloadCapacity

theorem follows_sync1 (hb : BufferInv p) (hs : p.state = .sync1) (byte : UInt8)
    (frame : Option UbxFrame) : Follows P p [] byte frame := by
  unfold Follows ubxParserFeed
  simp only [hs]
  by_cases h : byte = 0xB5
  · rw [if_pos h]
    refine ⟨_, _, rfl, rfl, ?_, ⟨hb.null, hb.cells⟩, rfl⟩
    rw [assemble, if_pos h]
    exact .sync2 rfl
  · rw [if_neg h]
    refine ⟨_, _, rfl, rfl, ?_, hb, rfl⟩
    rw [assemble, if_neg h]
    exact .sync1 hs

theorem follows_sync2 (hb : BufferInv p) (hs : p.state = .sync2) (byte : UInt8)
    (frame : Option UbxFrame) : Follows P p [0xB5] byte frame := by
  unfold Follows ubxParserFeed
  simp only [hs]
  by_cases h : byte = 0x62
  · subst h
    exact ⟨_, _, rfl, rfl, .class_ rfl ⟨rfl, rfl⟩, ⟨hb.null, hb.cells⟩, rfl⟩
  · rw [if_neg h]
    by_cases h' : byte = 0xB5
    · rw [if_neg (fun hne => hne h')]
      refine ⟨_, _, rfl, rfl, ?_, hb, rfl⟩
      rw [assemble, if_neg h, if_pos h']
      exact .sync2 hs
    · rw [if_pos h']
      refine ⟨_, _, rfl, rfl, ?_, ⟨hb.null, hb.cells⟩, rfl⟩
      rw [assemble, if_neg h, if_neg h']
      exact .sync1 rfl

theorem follows_class (hb : BufferInv p) (hs : p.state = .class_) (hp : Started p [])
    (byte : UInt8) (frame : Option UbxFrame) : Follows P p [0xB5, 0x62] byte frame := by
  unfold Follows ubxParserFeed
  simp only [hs]
  exact ⟨_, _, rfl, rfl, .id rfl ⟨hp.update byte, hp.index⟩ rfl, ⟨hb.null, hb.cells⟩, rfl⟩

theorem follows_id (hb : BufferInv p) {c : UInt8} (hs : p.state = .id) (hp : Started p [c])
    (hc : p.messageClass = c) (byte : UInt8) (frame : Option UbxFrame) :
    Follows P p [0xB5, 0x62, c] byte frame := by
  unfold Follows ubxParserFeed
  simp only [hs]
  exact ⟨_, _, rfl, rfl, .length1 rfl ⟨hp.update byte, hp.index⟩ hc rfl, ⟨hb.null, hb.cells⟩, rfl⟩

theorem follows_length1 (hb : BufferInv p) {c i : UInt8} (hs : p.state = .length1)
    (hp : Started p [c, i]) (hc : p.messageClass = c) (hi : p.messageId = i) (byte : UInt8)
    (frame : Option UbxFrame) : Follows P p [0xB5, 0x62, c, i] byte frame := by
  unfold Follows ubxParserFeed
  simp only [hs]
  exact ⟨_, _, rfl, rfl, .length2 rfl ⟨hp.update byte, hp.index⟩ hc hi rfl,
    ⟨hb.null, hb.cells⟩, rfl⟩

/-- The length is complete and the frame fits: its payload comes next, or its
checksum when there is no payload. -/
theorem follows_length2 (hb : BufferInv p) {c i l1 : UInt8} (hs : p.state = .length2)
    (hp : Started p [c, i, l1]) (hc : p.messageClass = c) (hi : p.messageId = i)
    (hl : p.payloadLength = l1.toUInt16) (byte : UInt8) (frame : Option UbxFrame)
    (hfit : leValue [l1, byte] ≤ p.payloadCapacity) :
    Follows P p [0xB5, 0x62, c, i, l1] byte frame := by
  unfold Follows ubxParserFeed
  simp only [hs, hl, or16, UbxParser.update, length_value]
  have hreport : assemble p.payloadCapacity [0xB5, 0x62, c, i, l1] byte
      = (.inProgress, [0xB5, 0x62, c, i, l1, byte]) := by
    show (if p.payloadCapacity < leValue [l1, byte] then _ else _, _) = _
    rw [if_neg (by omega)]
    rfl
  rw [hreport, if_neg (by omega)]
  -- without a payload the checksum comes next
  by_cases hzero : UInt16.ofNat (leValue [l1, byte]) = 0
  · have hlen : leValue [l1, byte] = 0 := by
      rw [← length_value, hzero]
      rfl
    rw [if_pos hzero]
    exact ⟨_, _, rfl, rfl, .checksumA rfl ⟨hp.update byte, hp.index⟩
      ⟨hc, hi, rfl, hfit, rfl⟩ hlen.symm, ⟨hb.null, hb.cells⟩, rfl⟩
  · have hlen : leValue [l1, byte] ≠ 0 := fun h => hzero (by rw [h]; rfl)
    rw [if_neg hzero]
    exact ⟨_, _, rfl, rfl, .payload rfl ⟨hp.update byte, rfl⟩
      ⟨hc, hi, rfl, hfit, rfl⟩ (Nat.pos_of_ne_zero hlen), ⟨hb.null, hb.cells⟩, rfl⟩

/-- A cell stored right behind a prefix extends it. -/
theorem take_set_succ {cells data : List UInt8} (h : cells.take data.length = data)
    (hlt : data.length < cells.length) (x : UInt8) :
    (cells.set data.length x).take (data.length + 1) = data ++ [x] := by
  rw [List.take_add_one, List.take_set_of_le (Nat.le_refl _), h, List.getElem?_set_self hlt]
  rfl

/-- The only store of the parser: it is in bounds, and the payload received so
far grows by the byte. -/
theorem store_payload (hb : BufferInv p) {c i l1 l2 : UInt8} {data : List UInt8}
    (hh : Header p c i l1 l2 data) (hlt : data.length < leValue [l1, l2]) (byte : UInt8) :
    ∃ cells, p.payloadBuffer = some cells ∧ data.length < cells.length ∧
      store p.payloadBuffer data.length byte = .ok (some (cells.set data.length byte)) := by
  have hcap : data.length < p.payloadCapacity := Nat.lt_of_lt_of_le hlt hh.fits
  cases hcells : p.payloadBuffer with
  | none => exact absurd (hb.null hcells) (by omega)
  | some cells =>
    have hlen : data.length < cells.length := Nat.lt_of_lt_of_le hcap (hb.cells cells hcells)
    exact ⟨cells, rfl, hlen, store_some hlen byte⟩

theorem follows_payload (hb : BufferInv p) {c i l1 l2 : UInt8} {data : List UInt8}
    (hs : p.state = .payload) (hp : Started p ([c, i, l1, l2] ++ data))
    (hh : Header p c i l1 l2 data) (hlt : data.length < leValue [l1, l2]) (byte : UInt8)
    (frame : Option UbxFrame) :
    Follows P p (0xB5 :: 0x62 :: c :: i :: l1 :: l2 :: data) byte frame := by
  obtain ⟨cells, hcells, hlen, hstore⟩ := store_payload hb hh hlt byte
  have hindex := hp.index_eq
  have hle := length_value_le l1 l2
  have hnext : P.sizeAdd data.length 1 = data.length + 1 := P.sizeAdd_small (by omega)
  have hdata : (cells.set data.length byte).take (data ++ [byte]).length = data ++ [byte] := by
    rw [List.length_append]
    refine take_set_succ ?_ hlen byte
    have hbuffer := hh.buffer
    rwa [hcells] at hbuffer
  have hbuf : BufferInv { p with payloadBuffer := some (cells.set data.length byte) } :=
    ⟨fun h => (nomatch h), fun cells' h => by
      cases h
      rw [List.length_set]
      exact hb.cells cells hcells⟩
  have hsums : (ubxChecksumUpdate (p.checksumA, p.checksumB) byte)
      = Fletcher.sums ([c, i, l1, l2] ++ (data ++ [byte])) := by
    rw [hp.update byte, List.append_assoc]
  have hcount : data.length + 1 = ([c, i, l1, l2] ++ (data ++ [byte])).length - 4 := by
    rw [List.length_append, List.length_append]
    exact (Nat.add_sub_cancel_left ..).symm
  unfold Follows ubxParserFeed
  simp only [hs, hindex, hstore, ok_bind, hnext, UbxParser.update, hh.length, length_value]
  rw [assemble_keeps _ _ _ _ _ _ (by omega)]
  -- the index has reached the length, or the payload goes on
  by_cases hend : data.length + 1 ≥ leValue [l1, l2]
  · rw [if_pos hend]
    refine ⟨_, _, rfl, rfl, .checksumA rfl ⟨hsums, hcount⟩
      ⟨hh.class_, hh.id, rfl, hh.fits, hdata⟩ ?_, ⟨hbuf.null, hbuf.cells⟩, rfl⟩
    rw [List.length_append, List.length_singleton]
    omega
  · rw [if_neg hend]
    refine ⟨_, _, rfl, rfl, .payload rfl ⟨hsums, hcount⟩
      ⟨hh.class_, hh.id, rfl, hh.fits, hdata⟩ ?_, ⟨hbuf.null, hbuf.cells⟩, rfl⟩
    rw [List.length_append, List.length_singleton]
    omega

theorem follows_checksumA (hb : BufferInv p) {c i l1 l2 : UInt8} {data : List UInt8}
    (hs : p.state = .checksumA) (hp : Started p ([c, i, l1, l2] ++ data))
    (hh : Header p c i l1 l2 data) (hlen : data.length = leValue [l1, l2]) (byte : UInt8)
    (frame : Option UbxFrame) :
    Follows P p (0xB5 :: 0x62 :: c :: i :: l1 :: l2 :: data) byte frame := by
  unfold Follows ubxParserFeed
  simp only [hs]
  rw [assemble_keeps _ _ _ _ _ _ (by omega)]
  exact ⟨_, _, rfl, rfl, .checksumB rfl ⟨hp.sums, hp.index⟩
    ⟨hh.class_, hh.id, hh.length, hh.fits, hh.buffer⟩ hlen rfl, ⟨hb.null, hb.cells⟩, rfl⟩

theorem follows_checksumB (hb : BufferInv p) {c i l1 l2 a : UInt8} {data : List UInt8}
    (hs : p.state = .checksumB) (hp : Started p ([c, i, l1, l2] ++ data))
    (hh : Header p c i l1 l2 data) (hlen : data.length = leValue [l1, l2])
    (ha : p.receivedChecksumA = a) (byte : UInt8) (frame : Option UbxFrame) :
    Follows P p (0xB5 :: 0x62 :: c :: i :: l1 :: l2 :: (data ++ [a])) byte frame := by
  unfold Follows ubxParserFeed
  simp only [hs]
  rw [assemble_last _ _ _ _ _ _ (by rw [List.length_append, List.length_singleton, hlen]),
    lastReport, if_neg (Nat.not_lt.mpr hh.fits), judge_eq hlen, ← hp.sums, ha]
  -- the parser's test is the assembler's: both compare with the sums of the body
  by_cases hok : a = p.checksumA ∧ byte = p.checksumB
  · rw [if_pos hok, if_pos hok]
    refine ⟨_, _, rfl, ⟨?_, ?_, ?_⟩, Rep.reset p, hb.reset, rfl⟩
    · rw [length_value]
      exact hh.fits
    · rw [length_value, ← hlen]
      exact hh.buffer
    · rw [hh.class_, hh.id, hh.length]
  · rw [if_neg hok, if_neg hok]
    exact ⟨_, _, rfl, rfl, Rep.reset p, hb.reset, rfl⟩

/-! ## Frames that do not fit -/

/-- The length is complete and the frame does not fit: the call says so, and
what follows is to be discarded. -/
theorem feed_oversize {l1 : UInt8} (hs : p.state = .length2) (hl : p.payloadLength = l1.toUInt16)
    (byte : UInt8) (frame : Option UbxFrame) (hover : p.payloadCapacity < leValue [l1, byte]) :
    ∃ p', ubxParserFeed P (some p) byte frame = .ok ((.oversize, frame), some p') ∧
      p'.state = .discard ∧ p'.payloadLength = UInt16.ofNat (leValue [l1, byte]) ∧
      p'.discardRemaining = P.sizeAdd (leValue [l1, byte]) 2 ∧
      p'.payloadBuffer = p.payloadBuffer ∧ p'.payloadCapacity = p.payloadCapacity := by
  unfold ubxParserFeed
  simp only [hs, hl, or16, UbxParser.update, length_value]
  rw [if_pos hover]
  exact ⟨_, rfl, rfl, rfl, rfl, rfl, rfl⟩

/-- A discarded byte is counted; with the last one the parser is reset. -/
theorem feed_discard (hs : p.state = .discard) (byte : UInt8) (frame : Option UbxFrame) :
    ∃ p', ubxParserFeed P (some p) byte frame = .ok ((.inProgress, frame), some p') ∧
      p'.payloadBuffer = p.payloadBuffer ∧ p'.payloadCapacity = p.payloadCapacity ∧
      (p.discardRemaining ≤ 1 → p'.state = .sync1) ∧
      (2 ≤ p.discardRemaining → p'.state = .discard ∧ p'.payloadLength = p.payloadLength ∧
        p'.discardRemaining = p.discardRemaining - 1) := by
  unfold ubxParserFeed
  simp only [hs]
  have hleft : (if p.discardRemaining > 0 then p.discardRemaining - 1 else p.discardRemaining)
      = p.discardRemaining - 1 := by
    split
    next => rfl
    next => omega
  rw [hleft]
  by_cases hlast : p.discardRemaining - 1 = 0
  · rw [if_pos hlast]
    exact ⟨_, rfl, rfl, rfl, fun _ => rfl, fun h => absurd h (by omega)⟩
  · rw [if_neg hlast]
    exact ⟨_, rfl, rfl, rfl, fun h => absurd h (by omega), fun _ => ⟨rfl, rfl, rfl⟩⟩

theorem follows_oversize (hP : 17 ≤ P.sizeBits) (hb : BufferInv p) {c i l1 : UInt8}
    (hs : p.state = .length2) (hl : p.payloadLength = l1.toUInt16) (byte : UInt8)
    (frame : Option UbxFrame) (hover : p.payloadCapacity < leValue [l1, byte]) :
    Follows P p [0xB5, 0x62, c, i, l1] byte frame := by
  obtain ⟨p', hfeed, hstate, hlength, hleft, hbuffer, hcap⟩ := feed_oversize (P := P) hs hl byte
    frame hover
  have hle := length_value_le l1 byte
  have hreport : assemble p.payloadCapacity [0xB5, 0x62, c, i, l1] byte
      = (.oversize, [0xB5, 0x62, c, i, l1, byte]) := by
    show (if p.payloadCapacity < leValue [l1, byte] then _ else _, _) = _
    rw [if_pos hover]
    rfl
  refine ⟨_, p', hfeed, ?_, ?_, hb.of_eq hbuffer hcap, hcap⟩
  · rw [hreport]
    rfl
  · rw [hreport]
    refine .discard hstate hlength (by rwa [hcap]) (Nat.zero_lt_succ _) ?_
    rw [hleft, P.sizeAdd_wide hP (by omega)]
    rfl

theorem follows_discard (hb : BufferInv p) {c i l1 l2 : UInt8} {junk : List UInt8}
    (hs : p.state = .discard) (hl : p.payloadLength = UInt16.ofNat (leValue [l1, l2]))
    (hover : p.payloadCapacity < leValue [l1, l2]) (hlt : junk.length < leValue [l1, l2] + 2)
    (hleft : p.discardRemaining = leValue [l1, l2] + 2 - junk.length) (byte : UInt8)
    (frame : Option UbxFrame) :
    Follows P p (0xB5 :: 0x62 :: c :: i :: l1 :: l2 :: junk) byte frame := by
  obtain ⟨p', hfeed, hbuffer, hcap, hlast, hmore⟩ := feed_discard (P := P) hs byte frame
  have hb' : BufferInv p' := hb.of_eq hbuffer hcap
  -- the counter is at one, or at least at two
  by_cases hend : junk.length = leValue [l1, l2] + 1
  · refine ⟨_, p', hfeed, ?_, ?_, hb', hcap⟩
    · rw [assemble_last _ _ _ _ _ _ hend, lastReport, if_pos hover]
      rfl
    · rw [assemble_last _ _ _ _ _ _ hend]
      exact .sync1 (hlast (by omega))
  · obtain ⟨hstate, hlength, hcount⟩ := hmore (by omega)
    refine ⟨_, p', hfeed, ?_, ?_, hb', hcap⟩
    · rw [assemble_keeps _ _ _ _ _ _ (by omega)]
      rfl
    · rw [assemble_keeps _ _ _ _ _ _ (by omega)]
      refine .discard hstate (by rw [hlength, hl]) (by rwa [hcap]) ?_ ?_
      · rw [List.length_append, List.length_singleton]
        omega
      · rw [List.length_append, List.length_singleton]
        omega

/-! ## The step lemma -/

/-- The byte does not complete a length beyond the capacity, and no such frame
is being discarded. -/
def Fits (p : UbxParser) (byte : UInt8) : Prop :=
  p.state ≠ .discard ∧ ∀ l1 : UInt8, p.state = .length2 → p.payloadLength = l1.toUInt16 →
    leValue [l1, byte] ≤ p.payloadCapacity

/-- **The parser follows the assembler**, for any `size_t`, while frames fit. -/
theorem feed_step_fits {pending : List UInt8} (hb : BufferInv p) (hr : Rep p pending)
    (byte : UInt8) (frame : Option UbxFrame) (hfit : Fits p byte) :
    Follows P p pending byte frame := by
  cases hr with
  | sync1 hs => exact follows_sync1 hb hs byte frame
  | sync2 hs => exact follows_sync2 hb hs byte frame
  | class_ hs hp => exact follows_class hb hs hp byte frame
  | id hs hp hc => exact follows_id hb hs hp hc byte frame
  | length1 hs hp hc hi => exact follows_length1 hb hs hp hc hi byte frame
  | length2 hs hp hc hi hl =>
    exact follows_length2 hb hs hp hc hi hl byte frame (hfit.2 _ hs hl)
  | payload hs hp hh hlt => exact follows_payload hb hs hp hh hlt byte frame
  | checksumA hs hp hh hlen => exact follows_checksumA hb hs hp hh hlen byte frame
  | checksumB hs hp hh hlen ha => exact follows_checksumB hb hs hp hh hlen ha byte frame
  | discard hs => exact absurd hs hfit.1

/-- **The parser follows the assembler**, whatever the frames. -/
theorem feed_step (hP : 17 ≤ P.sizeBits) {pending : List UInt8} (hb : BufferInv p)
    (hr : Rep p pending) (byte : UInt8) (frame : Option UbxFrame) :
    Follows P p pending byte frame := by
  by_cases hfit : Fits p byte
  · exact feed_step_fits hb hr byte frame hfit
  · -- only two states are left
    cases hr with
    | discard hs hl hover hlt hleft => exact follows_discard hb hs hl hover hlt hleft byte frame
    | length2 hs hp hc hi hl =>
      refine follows_oversize hP hb hs hl byte frame (Nat.lt_of_not_le fun hle => hfit ⟨?_, ?_⟩)
      · rw [hs]
        exact nofun
      · intro l1' _ hl'
        rw [UInt8.toUInt16_inj.mp (hl'.symm.trans hl)]
        exact hle
    | _ hs =>
      refine absurd ⟨?_, fun l1 hs' => ?_⟩ hfit
      · rw [hs]
        exact nofun
      · rw [hs] at hs'
        exact nomatch hs'

/-! ## Runs -/

/-- The result code of a report. -/
def Report.code : Report → UbxParseResult
  | .inProgress => .inProgress
  | .frameComplete _ => .frameComplete
  | .checksumError => .checksumError
  | .oversize => .oversize

/-- What a fed byte returned shows the report: the code always, all of it where
there is a frame to fill in. -/
def Shows (call : (UInt8 × Option UbxFrame) × UbxParseResult × Option UbxFrame)
    (report : Report) : Prop :=
  call.2.1 = report.code ∧ (call.1.2.isSome → observe call.2 = report)

theorem Answers.shows {byte : UInt8} {frame : Option UbxFrame} {report : Report}
    {out : UbxParseResult × Option UbxFrame} (h : Answers p frame report out) :
    Shows ((byte, frame), out) report := by
  constructor
  · unfold Answers at h
    split at h
    next => rw [h, Report.code]
    next => rw [h, Report.code]
    next => rw [h, Report.code]
    next => exact h.elim
    next => rw [h.2.2, Report.code]
  · intro hsome
    obtain ⟨f, rfl⟩ := Option.isSome_iff_exists.mp hsome
    exact h.observe

/-- The outputs of a run show the reports. -/
def ShowAll (inputs : List (UInt8 × Option UbxFrame))
    (outs : List (UbxParseResult × Option UbxFrame)) (reports : List Report) : Prop :=
  outs.map Prod.fst = reports.map Report.code ∧
    ((∀ input ∈ inputs, input.2.isSome) → outs.map observe = reports)

theorem showAll_of_shows {inputs : List (UInt8 × Option UbxFrame)}
    {outs : List (UbxParseResult × Option UbxFrame)} {reports : List Report}
    (hlen : outs.length = inputs.length) (h : List.Forall₂ Shows (inputs.zip outs) reports) :
    ShowAll inputs outs reports := by
  refine ⟨map_eq_of_answers hlen (fun _ _ _ _ hQ => hQ.1) h, ?_⟩
  intro hframes
  have hmap := map_eq_of_answers hlen (f := observe) (g := id)
    (fun input hin _ _ hQ => hQ.2 (hframes input hin)) h
  rwa [List.map_id] at hmap

/-- The parser, seen from a run: it stands for the assembler's state. -/
def Stands (capacity : Nat) (parser : Option UbxParser) (pending : List UInt8) : Prop :=
  ∃ p, parser = some p ∧ Rep p pending ∧ BufferInv p ∧ p.payloadCapacity = capacity

/-- **Every run of feeds follows the assembler.** -/
theorem run_follows (hP : 17 ≤ P.sizeBits) {pending : List UInt8} (hb : BufferInv p)
    (hr : Rep p pending) (inputs : List (UInt8 × Option UbxFrame)) :
    ∃ outs p', run (feedStep P) (some p) inputs = .ok (outs, some p') ∧
      ShowAll inputs outs (assembleAll p.payloadCapacity pending (inputs.map Prod.fst)).1 ∧
      Rep p' (assembleAll p.payloadCapacity pending (inputs.map Prod.fst)).2 ∧ BufferInv p' ∧
      p'.payloadCapacity = p.payloadCapacity := by
  have hstep : ∀ s q (input : UInt8 × Option UbxFrame), True → Stands p.payloadCapacity s q →
      ∃ out s', feedStep P s input = .ok (out, s') ∧
        Shows (input, out) (assemble p.payloadCapacity q input.1).1 ∧
        Stands p.payloadCapacity s' (assemble p.payloadCapacity q input.1).2 := by
    intro s q input _ hstands
    obtain ⟨byte, frame⟩ := input
    obtain ⟨p₁, rfl, hr₁, hb₁, hcap₁⟩ := hstands
    obtain ⟨out, p₂, hfeed, hout, hr₂, hb₂, hcap₂⟩ := feed_step hP hb₁ hr₁ byte frame
    rw [hcap₁] at hout hr₂ hcap₂
    exact ⟨out, some p₂, hfeed, hout.shows, p₂, rfl, hr₂, hb₂, hcap₂⟩
  obtain ⟨outs, s, hrun, hshows, p', rfl, hr', hb', hcap⟩ :=
    run_simulates _ hstep inputs (some p) pending (fun _ _ => trivial) ⟨p, rfl, hr, hb, rfl⟩
  exact ⟨outs, p', hrun, showAll_of_shows (run_length hrun) hshows, hr', hb', hcap⟩

/-- A parser in `DISCARD` stands for a frame that does not fit. -/
theorem Rep.discarding {pending : List UInt8} (h : Rep p pending) (hs : p.state = .discard) :
    Discarding p.payloadCapacity pending := by
  cases h with
  | discard _ _ hover => exact ⟨_, _, _, _, _, rfl, hover⟩
  | _ hs' =>
    rw [hs'] at hs
    exact nomatch hs

/-- What `Fits` asks of a step, read off the report. -/
theorem Rep.fits {pending : List UInt8} {byte : UInt8} (h : Rep p pending)
    (hnot : ¬ Discarding p.payloadCapacity pending)
    (hreport : (assemble p.payloadCapacity pending byte).1 ≠ .oversize) : Fits p byte := by
  refine ⟨fun hs => hnot (h.discarding hs), ?_⟩
  intro l1 hs hl
  cases h with
  | length2 _ _ _ _ hl' =>
    rw [UInt8.toUInt16_inj.mp (hl.symm.trans hl')]
    exact Nat.le_of_not_lt fun hover => hreport (if_pos hover)
  | _ hs' =>
    rw [hs'] at hs
    exact nomatch hs

/-- A run of feeds follows the assembler, for any `size_t`, as long as no frame
is too large. -/
theorem run_follows_fits {pending : List UInt8} (hb : BufferInv p) (hr : Rep p pending)
    (hnot : ¬ Discarding p.payloadCapacity pending) (inputs : List (UInt8 × Option UbxFrame))
    (hfits : ∀ report ∈ (assembleAll p.payloadCapacity pending (inputs.map Prod.fst)).1,
      report ≠ .oversize) :
    ∃ outs p', run (feedStep P) (some p) inputs = .ok (outs, some p') ∧
      ShowAll inputs outs (assembleAll p.payloadCapacity pending (inputs.map Prod.fst)).1 ∧
      Rep p' (assembleAll p.payloadCapacity pending (inputs.map Prod.fst)).2 ∧ BufferInv p' ∧
      p'.payloadCapacity = p.payloadCapacity := by
  have hstep : ∀ s q (input : UInt8 × Option UbxFrame),
      (assemble p.payloadCapacity q input.1).1 ≠ .oversize →
      Stands p.payloadCapacity s q ∧ ¬ Discarding p.payloadCapacity q →
      ∃ out s', feedStep P s input = .ok (out, s') ∧
        Shows (input, out) (assemble p.payloadCapacity q input.1).1 ∧
        Stands p.payloadCapacity s' (assemble p.payloadCapacity q input.1).2 ∧
        ¬ Discarding p.payloadCapacity (assemble p.payloadCapacity q input.1).2 := by
    intro s q input hreport hstands
    obtain ⟨byte, frame⟩ := input
    obtain ⟨⟨p₁, rfl, hr₁, hb₁, hcap₁⟩, hnot₁⟩ := hstands
    obtain ⟨out, p₂, hfeed, hout, hr₂, hb₂, hcap₂⟩ := feed_step_fits (P := P) hb₁ hr₁ byte frame
      (hr₁.fits (hcap₁ ▸ hnot₁) (hcap₁ ▸ hreport))
    rw [hcap₁] at hout hr₂ hcap₂
    exact ⟨out, some p₂, hfeed, hout.shows, ⟨p₂, rfl, hr₂, hb₂, hcap₂⟩,
      not_discarding_next hnot₁ hreport⟩
  obtain ⟨outs, s, hrun, hshows, ⟨p', rfl, hr', hb', hcap⟩, -⟩ :=
    run_simulates _ hstep inputs (some p) pending hfits ⟨⟨p, rfl, hr, hb, rfl⟩, hnot⟩
  exact ⟨outs, p', hrun, showAll_of_shows (run_length hrun) hshows, hr', hb', hcap⟩

end Ubx.Stream
