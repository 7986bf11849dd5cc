import Ubx.Stream.Frames
import Ubx.Stream.History

/-!
# How long a delivered payload lasts

The payload of a reported frame is not copied: it stands in the parser's own
buffer, and the parser goes on storing there. A caller has to be done with it
before that happens.

`UbxParser.depth` is how many bytes of a frame the parser must have been fed for
it to be where it is. One feed deepens it by one at most, and cell `k` is stored
to at depth `6 + k` only. So after `n` more bytes, whatever they are and however
often the parser is reset between them, no cell from `n - 6` on has changed
(`later_kept`); and a next frame of the right length overwrites cell `k` with
its byte `k + 7` (`overwrite_cell`). `payload_lifetime` puts the two together.
-/

namespace Ubx.Stream

open Lib

variable {P : Platform} {p p' : UbxParser} {start : Option UbxParser} {capacity : Nat}
  {contents : Option (List UInt8)} {h : History}

/-! ## What later calls leave alone -/

/-- How many bytes of a frame lie behind the parser, as far as they decide where
it stores. -/
def UbxParser.depth (p : UbxParser) : Nat :=
  match p.state with
  | .sync2 => 1
  | .class_ => 2
  | .id => 3
  | .length1 => 4
  | .length2 => 5
  | .payload => 6 + p.payloadIndex
  | _ => 0

/-- A byte deepens it by one at most. -/
theorem feed_depth {byte : UInt8} {frame : Option UbxFrame}
    {out : UbxParseResult × Option UbxFrame}
    (hfeed : ubxParserFeed P (some p) byte frame = .ok (out, some p')) :
    p'.depth ≤ p.depth + 1 := by
  unfold ubxParserFeed at hfeed
  unfold UbxParser.depth
  dsimp only at hfeed
  cases hs : p.state with
  | payload =>
    simp only [hs] at hfeed ⊢
    obtain ⟨buffer, -, hfeed⟩ := bind_eq_ok.mp hfeed
    have hnext : P.sizeAdd p.payloadIndex 1 ≤ p.payloadIndex + 1 := Nat.mod_le _ _
    split at hfeed
    next =>
      cases hfeed
      exact Nat.zero_le _
    next =>
      cases hfeed
      simp only [UbxParser.update]
      omega
  | _ =>
    simp only [hs] at hfeed ⊢
    repeat' split at hfeed
    all_goals
      cases hfeed
      simp [hs, UbxParser.reset, ubxStartFrame]

/-- Where it stores to, it is six bytes deeper. -/
theorem feed_keeps {n : Nat} (hdepth : p.depth ≤ n) {byte : UInt8} {frame : Option UbxFrame}
    {out : UbxParseResult × Option UbxFrame}
    (hfeed : ubxParserFeed P (some p) byte frame = .ok (out, some p')) :
    p'.payloadBuffer.map (List.drop (n + 1 - 6)) = p.payloadBuffer.map (List.drop (n + 1 - 6)) := by
  rw [feed_stores hfeed]
  split
  next hs =>
    have hindex : 6 + p.payloadIndex ≤ n := by
      unfold UbxParser.depth at hdepth
      rwa [hs] at hdepth
    cases p.payloadBuffer with
    | none => rfl
    | some cells =>
      rw [Option.map_some, Option.map_some, Option.map_some, List.drop_set_of_lt (by omega)]
  next => rfl

/-- The bytes fed by some calls. -/
def fedCount (calls : List ParserCall) : Nat :=
  calls.countP fun call => match call with
    | .feed _ _ => true
    | .reset => false

theorem fedCount_append (calls calls' : List ParserCall) :
    fedCount (calls ++ calls') = fedCount calls + fedCount calls' :=
  List.countP_append

/-- What is kept from a cell on is kept from any later one on. -/
theorem kept_from {buffer buffer' : Option (List UInt8)} {m m' : Nat} (hle : m ≤ m')
    (hkept : buffer'.map (List.drop m) = buffer.map (List.drop m)) :
    buffer'.map (List.drop m') = buffer.map (List.drop m') := by
  have hdrop : (List.drop m' : List UInt8 → List UInt8) = List.drop (m' - m) ∘ List.drop m := by
    funext cells
    rw [Function.comp, List.drop_drop, Nat.add_sub_of_le hle]
  rw [hdrop, ← Option.map_map, hkept, Option.map_map]

/-- **Any later calls** return, and leave the cells alone that a frame cannot
have reached with the bytes they feed. -/
theorem later_kept (hg : Good P start capacity contents h p) (hs : p.state = .sync1)
    (later : List ParserCall) :
    ∃ returns p', run (ParserCall.exec P) (some p) later = .ok (returns, some p') ∧
      Good P start capacity contents (h ++ later.zip returns) p' ∧
      p'.payloadBuffer.map (List.drop (fedCount later - 6))
        = p.payloadBuffer.map (List.drop (fedCount later - 6)) := by
  have hstep : ∀ g s call, (∃ q, s = some q ∧ Good P start capacity contents (h ++ g) q ∧
        q.depth ≤ fedCount (g.map Prod.fst) ∧
        q.payloadBuffer.map (List.drop (fedCount (g.map Prod.fst) - 6))
          = p.payloadBuffer.map (List.drop (fedCount (g.map Prod.fst) - 6))) →
      ∃ ret s', call.exec P s = .ok (ret, s') ∧ ∃ q', s' = some q' ∧
        Good P start capacity contents (h ++ (g ++ [(call, ret)])) q' ∧
        q'.depth ≤ fedCount ((g ++ [(call, ret)]).map Prod.fst) ∧
        q'.payloadBuffer.map (List.drop (fedCount ((g ++ [(call, ret)]).map Prod.fst) - 6))
          = p.payloadBuffer.map
            (List.drop (fedCount ((g ++ [(call, ret)]).map Prod.fst) - 6)) := by
    rintro g s call ⟨q, rfl, hq, hdepth, hkept⟩
    simp only [List.map_append, fedCount_append, ← List.append_assoc]
    cases call with
    | feed byte frame =>
      obtain ⟨out, q', hfeed, hq'⟩ := good_feed hq byte frame
      refine ⟨_, _, exec_feed hfeed, q', rfl, hq', ?_, ?_⟩
      · have hone := feed_depth hfeed
        show q'.depth ≤ fedCount (g.map Prod.fst) + 1
        omega
      · exact (feed_keeps hdepth hfeed).trans (kept_from (by omega) hkept)
    | reset => exact ⟨_, _, rfl, _, rfl, good_reset hq, Nat.zero_le _, hkept⟩
  have hzero : p.depth = 0 := by
    unfold UbxParser.depth
    rw [hs]
  obtain ⟨returns, s, hrun, p', rfl, hgood, -, hkept⟩ := run_inv _ hstep later [] (some p)
    ⟨p, rfl, by rwa [List.append_nil], Nat.le_of_eq hzero, rfl⟩
  have hcalls : (later.zip returns).map Prod.fst = later :=
    List.map_fst_zip (Nat.le_of_eq (run_length hrun).symm)
  rw [List.nil_append] at hgood
  rw [List.nil_append, hcalls] at hkept
  exact ⟨returns, p', hrun, hgood, hkept⟩

/-- The buffer after some calls: still there, as large, and the same from the
cell on that their bytes reach. -/
theorem buffer_after (hg : Good P start capacity contents h p) (hs : p.state = .sync1)
    {cells : List UInt8} (hbuffer : p.payloadBuffer = some cells) {later : List ParserCall}
    {returns : List ParserReturn}
    (hrun : run (ParserCall.exec P) (some p) later = .ok (returns, some p')) :
    ∃ cells', p'.payloadBuffer = some cells' ∧ p.payloadCapacity ≤ cells'.length ∧
      ∀ k, fedCount later ≤ k + 6 → cells'.drop k = cells.drop k := by
  obtain ⟨returns', q, hrun', hq, hkept⟩ := later_kept hg hs later
  rw [hrun] at hrun'
  cases hrun'
  obtain ⟨cells', hcells', -⟩ := Option.map_eq_some_iff.mp (hkept.trans (by rw [hbuffer]; rfl))
  refine ⟨cells', hcells', ?_, ?_⟩
  · rw [hg.capacity_eq, ← hq.capacity_eq]
    exact hq.buffer.cells cells' hcells'
  · intro k hk
    have hfrom := kept_from (show fedCount later - 6 ≤ k by omega) hkept
    rw [hcells', hbuffer] at hfrom
    exact Option.some.inj hfrom

/-- A cell that is kept reads the same. -/
theorem kept_cell {buffer buffer' : Option (List UInt8)} {m k : Nat} (hle : m ≤ k)
    (hkept : buffer'.map (List.drop m) = buffer.map (List.drop m)) :
    (buffer'.getD [])[k]? = (buffer.getD [])[k]? := by
  cases buffer with
  | none =>
    rw [Option.map_none, Option.map_eq_none_iff] at hkept
    rw [hkept]
  | some cells =>
    rw [Option.map_some, Option.map_eq_some_iff] at hkept
    obtain ⟨cells', rfl, hdrop⟩ := hkept
    have hcell := congrArg (fun cells => cells[k - m]?) hdrop
    rwa [List.getElem?_drop, List.getElem?_drop, Nat.add_sub_of_le hle] at hcell

/-! ## What a next frame overwrites -/

/-- A run of feeds is a session of feed calls. -/
theorem exec_feeds :
    ∀ {inputs : List (UInt8 × Option UbxFrame)} {s s' : Option UbxParser}
      {outs : List (UbxParseResult × Option UbxFrame)},
      run (feedStep P) s inputs = .ok (outs, s') →
      run (ParserCall.exec P) s (inputs.map fun input => .feed input.1 input.2)
        = .ok (outs.map fun out => .fed out.1 out.2, s') := by
  intro inputs
  induction inputs with
  | nil =>
    rintro s s' outs h
    cases h
    rfl
  | cons input inputs ih =>
    intro s s' outs h
    obtain ⟨out, outs', s₁, hstep, hrest, rfl⟩ := run_cons_inv h
    have hexec : (ParserCall.feed input.1 input.2).exec P s = .ok (.fed out.1 out.2, s₁) := by
      show (ubxParserFeed P s input.1 input.2 >>= _) = _
      rw [show ubxParserFeed P s input.1 input.2 = .ok (out, s₁) from hstep]
      rfl
    exact run_cons hexec (ih hrest)

theorem fedCount_feeds (inputs : List (UInt8 × Option UbxFrame)) :
    fedCount (inputs.map fun input => .feed input.1 input.2) = inputs.length := by
  induction inputs with
  | nil => rfl
  | cons input inputs ih =>
    show fedCount ([.feed input.1 input.2] ++ inputs.map _) = _
    rw [fedCount_append, ih, List.length_cons, Nat.add_comm]
    rfl

/-- The payload of the frame in progress stands in front of the buffer. -/
theorem Rep.payload_front {c i l1 l2 : UInt8} {data : List UInt8}
    (hr : Rep p (0xB5 :: 0x62 :: c :: i :: l1 :: l2 :: data))
    (hfit : leValue [l1, l2] ≤ p.payloadCapacity) (hlen : data.length ≤ leValue [l1, l2]) :
    (p.payloadBuffer.getD []).take data.length = data := by
  cases hr with
  | payload _ _ hh _ => exact hh.buffer
  | checksumA _ _ hh _ => exact hh.buffer
  | checksumB _ _ _ hend _ =>
    rw [List.length_append, List.length_singleton] at hlen
    omega
  | discard _ _ hover _ _ => omega

/-- Bytes short of the end of a frame that fits are all answered with `IN_PROGRESS`. -/
theorem assembleAll_begun {capacity : Nat} {c i l1 l2 : UInt8} {data : List UInt8}
    (hfit : leValue [l1, l2] ≤ capacity) (hlen : data.length ≤ leValue [l1, l2]) :
    assembleAll capacity [] (0xB5 :: 0x62 :: c :: i :: l1 :: l2 :: data)
      = (List.replicate (data.length + 6) .inProgress,
        0xB5 :: 0x62 :: c :: i :: l1 :: l2 :: data) := by
  have htail := assembleAll_tail capacity c i l1 l2 data [] (by rw [List.length_nil]; omega)
  rw [assembleAll_sync capacity (Or.inl rfl), assembleAll_header, headerReport,
    if_neg (Nat.not_lt.mpr hfit), htail]
  rfl

/-- A parser that is fed the front of a frame that fits has its payload bytes in
front of the buffer. -/
theorem begun_run (hb : BufferInv p) (hs : p.state = .sync1) {c i l1 l2 : UInt8}
    {data : List UInt8} (hfit : leValue [l1, l2] ≤ p.payloadCapacity)
    (hlen : data.length ≤ leValue [l1, l2]) {inputs : List (UInt8 × Option UbxFrame)}
    (hinputs : inputs.map Prod.fst = 0xB5 :: 0x62 :: c :: i :: l1 :: l2 :: data) :
    ∃ outs p', run (feedStep P) (some p) inputs = .ok (outs, some p') ∧
      (p'.payloadBuffer.getD []).take data.length = data := by
  have htrace := assembleAll_begun (c := c) (i := i) hfit hlen
  have hnot : ¬ Discarding p.payloadCapacity [] := fun ⟨_, _, _, _, _, h, _⟩ => by cases h
  rw [← hinputs] at htrace
  obtain ⟨outs, p', hrun, -, hr, -, hcap⟩ :=
    run_follows_fits (P := P) hb (.sync1 hs) hnot inputs (by
      intro report hreport
      rw [htrace] at hreport
      rw [List.eq_of_mem_replicate hreport]
      simp)
  rw [htrace, hinputs] at hr
  exact ⟨outs, p', hrun, hr.payload_front (by rwa [hcap]) hlen⟩

/-- **A frame of `k + 1` payload bytes** puts its last one into cell `k`. -/
theorem overwrite_cell (hb : BufferInv p) (hs : p.state = .sync1) {k : Nat}
    (hk : k < p.payloadCapacity) (hmax : k < 65535) (x : UInt8) :
    ∃ inputs outs p', inputs.length = k + 7 ∧
      run (feedStep P) (some p) inputs = .ok (outs, some p') ∧
      (p'.payloadBuffer.getD [])[k]? = some x := by
  have hvalue : leValue [UInt8.ofNat (k + 1), UInt8.ofNat ((k + 1) / 256)] = k + 1 :=
    length_value_bytes hmax
  have hdata : (List.replicate (k + 1) x).length = k + 1 := List.length_replicate
  obtain ⟨outs, p', hrun, hfront⟩ := begun_run (P := P) hb hs
    (by rw [hvalue]; exact hk) (by rw [hvalue, hdata])
    (map_fst_feeds (0xB5 :: 0x62 :: 0 :: 0 :: _ :: _ :: List.replicate (k + 1) x) none)
  refine ⟨_, outs, p', ?_, hrun, ?_⟩
  · rw [feeds, List.length_map]
    show (List.replicate (k + 1) x).length + 6 = k + 7
    omega
  · rw [hdata] at hfront
    rw [← List.getElem?_take_of_lt (Nat.lt_succ_self k), hfront,
      List.getElem?_replicate_of_lt (Nat.lt_succ_self k)]

/-- Bytes that start nothing change nothing. -/
theorem idle_run (hs : p.state = .sync1) (m : Nat) :
    run (ParserCall.exec P) (some p) (List.replicate m (.feed 0 none))
      = .ok (List.replicate m (.fed .inProgress none), some p) := by
  have hfeed : ubxParserFeed P (some p) 0 none = .ok ((.inProgress, none), some p) := by
    unfold ubxParserFeed
    simp only [hs]
    exact if_neg (by simp)
  have hidle : (ParserCall.feed 0 none).exec P (some p) = .ok (.fed .inProgress none, some p) :=
    exec_feed hfeed
  induction m with
  | zero => rfl
  | succ m ih => exact run_cons hidle ih

theorem fedCount_idle (m : Nat) :
    fedCount (List.replicate m (.feed 0 none)) = m := by
  rw [fedCount, List.countP_replicate]
  rfl

/-- **More bytes than reach a cell** can leave any byte there: a frame that puts
it there, a reset, and as many bytes more as there are to be. -/
theorem late_overwrite (hb : BufferInv p) (hs : p.state = .sync1) {k n : Nat}
    (hk : k < p.payloadCapacity) (hmax : k < 65535) (hlate : k + 6 < n) (x : UInt8) :
    ∃ later returns p', fedCount later = n ∧
      run (ParserCall.exec P) (some p) later = .ok (returns, some p') ∧
      (p'.payloadBuffer.getD [])[k]? = some x := by
  obtain ⟨inputs, outs, q, hinputs, hrun, hcell⟩ := overwrite_cell (P := P) hb hs hk hmax x
  have hreset : ParserCall.reset.exec P (some q) = .ok (.wasReset, some q.reset) := rfl
  have hidle := idle_run (P := P) (p := q.reset) rfl (n - (k + 7))
  refine ⟨_, _, _, ?_, run_append (exec_feeds hrun) (run_cons hreset hidle), hcell⟩
  rw [fedCount_append, fedCount_feeds, hinputs]
  show k + 7 + fedCount (List.replicate (n - (k + 7)) _) = n
  rw [fedCount_idle]
  omega

/-! ## The lifetime -/

/-- Whatever a cell holds, it may hold another byte. -/
theorem another_byte (cell : Option UInt8) : ∃ x, cell ≠ some x := by
  by_cases h : cell = some 0
  · exact ⟨1, by rw [h]; simp⟩
  · exact ⟨0, h⟩

/-- The feed that completes a frame shows the buffer and resets the parser. -/
theorem feed_complete {byte : UInt8} {old frame : UbxFrame} {parser' : Option UbxParser}
    (hfeed : ubxParserFeed P (some p) byte (some old)
      = .ok ((.frameComplete, some frame), parser')) :
    p.state = .checksumB ∧ frame.payloadLength = p.payloadLength ∧
      frame.payload = p.payloadBuffer ∧ parser' = some p.reset := by
  obtain ⟨_, -, hfed⟩ := feed_inv hfeed
  obtain ⟨hs, ha, hbyte, hframe⟩ := hfed.complete rfl
  cases hframe
  unfold ubxParserFeed at hfeed
  simp only [hs] at hfeed
  rw [if_pos ⟨ha, hbyte⟩] at hfeed
  cases hfeed
  exact ⟨hs, rfl, rfl, rfl⟩

/-- A frame that gets to its last byte fits. -/
theorem Good.delivered_fits (hg : Good P start capacity contents h p) (hs : p.state = .checksumB) :
    p.payloadLength.toNat ≤ p.payloadCapacity := by
  rcases hg.progress with ⟨pending, hr, -⟩ | hswallow
  · exact (hr.checksum_clause (Or.inr hs)).2
  · have hstate := hswallow.state
    rw [hs] at hstate
    cases hstate

/-- **The lifetime of a delivered payload.** Whatever is called after a frame was
reported, its frame is what it was while at most six bytes are fed; and byte `k`
of its payload is there for exactly `k + 6` more bytes: no more calls than that
change it, and with any more there are calls that do. -/
theorem payload_lifetime {buffer : Option (List UInt8)} {capacity : Nat}
    (hbuf : BufferOk buffer capacity) {calls : List ParserCall} {returns : List ParserReturn}
    (hreach : Reaches P buffer capacity calls returns p) {byte : UInt8} {old frame : UbxFrame}
    {parser' : Option UbxParser}
    (hfeed : ubxParserFeed P (some p) byte (some old)
      = .ok ((.frameComplete, some frame), parser')) :
    (∀ later : List ParserCall, ∃ returns' p',
      run (ParserCall.exec P) parser' later = .ok (returns', some p') ∧
        (fedCount later ≤ 6 → frame.withPayload p'.payloadBuffer = frame)) ∧
    ∀ k, k < frame.payloadLength.toNat → ∀ n,
      (∀ (later : List ParserCall) (returns' : List ParserReturn) (p' : UbxParser),
        fedCount later = n → run (ParserCall.exec P) parser' later = .ok (returns', some p') →
        (p'.payloadBuffer.getD [])[k]? = (frame.payload.getD [])[k]?) ↔ n ≤ k + 6 := by
  obtain ⟨start, hg, -⟩ := hreach.good hbuf
  obtain ⟨hs, hlength, hpayload, rfl⟩ := feed_complete hfeed
  have hg' := good_reset hg
  have hcap := hg.delivered_fits hs
  constructor
  · intro later
    obtain ⟨returns', p', hrun, -, hkept⟩ := later_kept hg' rfl later
    refine ⟨returns', p', hrun, ?_⟩
    intro hsix
    have hsame : p'.payloadBuffer = p.payloadBuffer := by
      have hall : ∀ b : Option (List UInt8), b.map (List.drop 0) = b := fun b => Option.map_id'
      rwa [Nat.sub_eq_zero_of_le hsix, hall, hall] at hkept
    rw [hsame, ← hpayload]
    rfl
  · intro k hk n
    constructor
    · intro hall
      by_contra hlate
      obtain ⟨x, hx⟩ := another_byte (frame.payload.getD [])[k]?
      have hlt := p.payloadLength.toNat_lt
      rw [hlength] at hk
      obtain ⟨later, returns', p', hcount, hrun, hcell⟩ := late_overwrite (P := P) hg'.buffer rfl
        (show k < p.reset.payloadCapacity from Nat.lt_of_lt_of_le hk hcap) (by omega)
        (Nat.lt_of_not_le hlate) x
      exact hx ((hall later returns' p' hcount hrun).symm.trans hcell)
    · intro hle later returns' p' hcount hrun
      obtain ⟨returns'', p'', hrun', -, hkept⟩ := later_kept hg' rfl later
      rw [hrun] at hrun'
      cases hrun'
      rw [hpayload]
      exact kept_cell (by omega) hkept

/-- Two payload bytes: the second is there for seven more bytes, and not for eight. -/
theorem payload_lifetime_second :
    (∀ (later : List ParserCall) (returns : List ParserReturn) (p' : UbxParser),
      fedCount later = 7 → run (ParserCall.exec Platform.size32)
        (some ⟨.sync1, some [6, 1], 2, 0, 0, 0, 0, 0, 0, 0, 0⟩) later
          = .ok (returns, some p') → (p'.payloadBuffer.getD [])[1]? = [6, (1 : UInt8)][1]?) ∧
    ¬ ∀ (later : List ParserCall) (returns : List ParserReturn) (p' : UbxParser),
      fedCount later = 8 → run (ParserCall.exec Platform.size32)
        (some ⟨.sync1, some [6, 1], 2, 0, 0, 0, 0, 0, 0, 0, 0⟩) later
          = .ok (returns, some p') → (p'.payloadBuffer.getD [])[1]? = [6, (1 : UInt8)][1]? := by
  have hreach : Reaches Platform.size32 (some [0, 0]) 2
      ([0xB5, 0x62, 5, 1, 2, 0, 6, 1, 0x0F].map fun b => .feed b none)
      (List.replicate 9 (.fed .inProgress none))
      ⟨.checksumB, some [6, 1], 2, 2, 5, 1, 2, 0x0F, 0x38, 0x0F, 0⟩ := ⟨zeroParser, rfl⟩
  have hfeed : ubxParserFeed Platform.size32
      (some ⟨.checksumB, some [6, 1], 2, 2, 5, 1, 2, 0x0F, 0x38, 0x0F, 0⟩) 0x38
      (some ⟨0, 0, 0, none⟩)
        = .ok ((.frameComplete, some ⟨5, 1, 2, some [6, 1]⟩),
          some ⟨.sync1, some [6, 1], 2, 0, 0, 0, 0, 0, 0, 0, 0⟩) := rfl
  have hcell : 1 < (2 : UInt16).toNat := Nat.lt_succ_self 1
  obtain ⟨-, hlifetime⟩ := payload_lifetime twoCells_ok hreach hfeed
  exact ⟨(hlifetime 1 hcell 7).mpr (Nat.le_refl 7),
    fun h => absurd ((hlifetime 1 hcell 8).mp h) (Nat.not_succ_le_self 7)⟩

end Ubx.Stream
