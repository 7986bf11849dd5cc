import Ubx.Cfg.Getters
import Ubx.Decode.Safety
import Ubx.Lib.Interleave
import Ubx.Stream.Lifetime

/-!
# Iterating while the parser goes on

The iterator keeps a pointer to the payload of a VALGET response, and a reported
payload stands in the parser's own buffer. So a caller that feeds the parser
between two calls of the iterator has the two work on one object.

`nextOver` is a call of the iterator on the buffer as it stands then. It reads
from the iterator's offset on (`at_onPayload`), so it answers as on the delivered
payload for as long as the parser has not stored that far: `offset + 6` bytes,
whatever they are (`next_kept`), and for no longer (`next_changed`).
`iterated_while_fed` is what follows for any schedule of feeds, resets and calls
of the iterator, by the rule `interleave_runs`.
-/

namespace Ubx.Decode

open Lib Ubx.Stream Ubx.Cfg

/-- A call of the iterator while the payload stands in the buffer of the parser:
the cells are those of the buffer now, and the iterator's pointer stays. -/
def nextOver (P : Platform) (parser : Option UbxParser) (it : UbxCfgValgetIterator)
    (item : Option UbxCfgValgetItem) :
    Run ((UbxCfgIterateResult × Option UbxCfgValgetItem) × UbxCfgValgetIterator) := do
  let (ret, next) ← nextCall P (some (onPayload it (parser.bind UbxParser.payloadBuffer))) item
  return (ret, onPayload (next.getD it) it.payload)

/-- At each call of the iterator it has passed all of the payload, or no more
bytes were fed by then than its offset and six. -/
def Timely (P : Platform) (it : UbxCfgValgetIterator)
    (schedule : List (ParserCall ⊕ Option UbxCfgValgetItem)) : Prop :=
  ∀ before item after, schedule = before ++ .inr item :: after → ∀ rets it',
    run (nextCall P) (some it) (rights before) = .ok (rets, some it') →
    it'.offset = it'.payloadLength ∨ fedCount (lefts before) ≤ it'.offset + 6

section

variable {P : Platform} {cells cells' rest : List UInt8} {it : UbxCfgValgetIterator}
  {item : Option UbxCfgValgetItem} {q : Option UbxParser}

/-! ## One call -/

theorem onPayload_self {payload : Option (List UInt8)} (h : it.payload = payload) :
    onPayload it payload = it := by
  rw [← h]
  rfl

/-- The iterator stands in front of the same bytes of any object that holds the
same from its offset on. -/
theorem at_onPayload (h : At cells it rest) (hle : it.payloadLength ≤ cells'.length)
    (hsame : it.offset = it.payloadLength ∨ cells'.drop it.offset = cells.drop it.offset) :
    At cells' (onPayload it (some cells')) rest := by
  refine ⟨rfl, hle, h.length_le, h.offset_le, ?_⟩
  show (cells'.take it.payloadLength).drop it.offset = rest
  have hrest := h.rest_eq
  rw [List.drop_take] at hrest ⊢
  rcases hsame with hend | hdrop
  · rw [hend, Nat.sub_self, List.take_zero] at hrest ⊢
    exact hrest
  · rw [hdrop]
    exact hrest

/-- A call returns, and the iterator stands further on in the same payload. -/
theorem nextCall_step (h : At cells it rest) (item : Option UbxCfgValgetItem) :
    ∃ ret next rest', nextCall P (some it) item = .ok (ret, some next) ∧ At cells next rest' ∧
      next.payloadLength = it.payloadLength := by
  unfold nextCall
  cases item with
  | none => exact ⟨_, _, rest, rfl, h, rfl⟩
  | some out =>
    by_cases hstarts : StartsItem rest
    · obtain ⟨front, rest', rfl⟩ := hstarts
      rw [next_item h]
      exact ⟨_, _, rest', rfl, h.past, rfl⟩
    · rw [next_ends h hstarts]
      exact ⟨_, _, rest, rfl, h, rfl⟩

/-- What a call does depends on the bytes in front of the iterator only. -/
theorem nextOver_of_nextCall (hbuffer : q.bind UbxParser.payloadBuffer = some cells')
    (h : At cells it rest) (h' : At cells' (onPayload it (some cells')) rest)
    {ret : UbxCfgIterateResult × Option UbxCfgValgetItem} {next : UbxCfgValgetIterator}
    (hcall : nextCall P (some it) item = .ok (ret, some next)) :
    nextOver P q it item = .ok (ret, next) := by
  unfold nextOver
  unfold nextCall at hcall ⊢
  rw [hbuffer]
  cases item with
  | none =>
    cases hcall
    rfl
  | some out =>
    by_cases hstarts : StartsItem rest
    · obtain ⟨front, rest', rfl⟩ := hstarts
      rw [next_item h] at hcall
      rw [next_item h']
      cases hcall
      rfl
    · rw [next_ends h hstarts] at hcall
      rw [next_ends h' hstarts]
      cases hcall
      rfl

/-- The calls on the delivered payload, also where it is seen as the buffer of
the parser. -/
theorem run_nextCall (hbuffer : q.bind UbxParser.payloadBuffer = some cells) :
    ∀ (items : List (Option UbxCfgValgetItem)) {it : UbxCfgValgetIterator} {rest : List UInt8},
      At cells it rest →
      ∃ rets it' rest', run (nextCall P) (some it) items = .ok (rets, some it') ∧
        run (nextOver P q) it items = .ok (rets, it') ∧ At cells it' rest' ∧
        it'.payloadLength = it.payloadLength := by
  intro items
  induction items with
  | nil =>
    intro it rest h
    exact ⟨[], it, rest, rfl, rfl, h, rfl⟩
  | cons item items ih =>
    intro it rest h
    obtain ⟨ret, it₁, rest₁, hcall, h₁, hlength₁⟩ := nextCall_step (P := P) h item
    have hself : At cells (onPayload it (some cells)) rest := by
      rwa [onPayload_self h.payload]
    have hover := nextOver_of_nextCall hbuffer h hself hcall
    obtain ⟨rets, it₂, rest₂, hcalls, hovers, h₂, hlength₂⟩ := ih h₁
    exact ⟨ret :: rets, it₂, rest₂, run_cons hcall hcalls, run_cons hover hovers, h₂,
      hlength₂.trans hlength₁⟩

/-- The first byte of the item in front. -/
theorem front_cell {item : Item} (h : At cells it (item.bytes ++ rest)) :
    cells[it.offset]? = (leBytes 4 item.key.toNat)[0]? := by
  obtain ⟨-, hkey, -⟩ := h.item_bytes
  rw [← hkey, List.getElem?_take_of_lt (Nat.zero_lt_succ 3), List.getElem?_drop]
  rfl

end

/-! ## Behind a delivered frame -/

section

variable {P : Platform} {p p' : UbxParser} {start : Option UbxParser} {capacity : Nat}
  {contents : Option (List UInt8)} {h : History} {cells rest : List UInt8}
  {it : UbxCfgValgetIterator} {item : Option UbxCfgValgetItem} {later : List ParserCall}
  {returns : List ParserReturn}

/-- **In time**, a call answers as on the delivered payload. -/
theorem next_kept (hg : Good P start capacity contents h p) (hs : p.state = .sync1)
    (hbuffer : p.payloadBuffer = some cells) (hat : At cells it rest)
    (hfits : it.payloadLength ≤ p.payloadCapacity)
    (hrun : run (ParserCall.exec P) (some p) later = .ok (returns, some p'))
    (htimely : it.offset = it.payloadLength ∨ fedCount later ≤ it.offset + 6)
    {ret : UbxCfgIterateResult × Option UbxCfgValgetItem} {next : UbxCfgValgetIterator}
    (hcall : nextCall P (some it) item = .ok (ret, some next)) :
    nextOver P (some p') it item = .ok (ret, next) := by
  obtain ⟨cells', hcells', hcap, hsame⟩ := buffer_after hg hs hbuffer hrun
  have hat' := at_onPayload hat (Nat.le_trans hfits hcap) (htimely.imp_right (hsame _))
  exact nextOver_of_nextCall (q := some p') hcells' hat hat' hcall

/-- **Too late**, there are bytes with which it does not. -/
theorem next_changed (hg : Good P start capacity contents h p) (hs : p.state = .sync1)
    (hbuffer : p.payloadBuffer = some cells) {front : Item}
    (hat : At cells it (front.bytes ++ rest)) (hfits : it.payloadLength ≤ p.payloadCapacity)
    (out : UbxCfgValgetItem) {n : Nat} (hlate : it.offset + 6 < n) :
    ∃ later returns p', fedCount later = n ∧
      run (ParserCall.exec P) (some p) later = .ok (returns, some p') ∧
      ∀ next, nextOver P (some p') it (some out) ≠ .ok ((.item, some front.decoded), next) := by
  have hlen := hat.length_rest
  have hmax := hat.length_le
  rw [List.length_append, front.length_bytes] at hlen
  obtain ⟨x, hx⟩ := another_byte cells[it.offset]?
  obtain ⟨later, returns, p', hcount, hrun, hcell⟩ :=
    late_overwrite (P := P) hg.buffer hs (show it.offset < p.payloadCapacity by omega) (by omega)
      hlate x
  refine ⟨later, returns, p', hcount, hrun, ?_⟩
  obtain ⟨cells', hcells', hcap, -⟩ := buffer_after hg hs hbuffer hrun
  rw [hcells'] at hcell
  intro next hsame
  have hat' : At cells' (onPayload it (some cells'))
      ((cells'.take it.payloadLength).drop it.offset) :=
    ⟨rfl, Nat.le_trans hfits hcap, hmax, hat.offset_le, rfl⟩
  unfold nextOver nextCall at hsame
  rw [Option.bind_some, hcells'] at hsame
  by_cases hstarts : StartsItem ((cells'.take it.payloadLength).drop it.offset)
  · obtain ⟨front', rest', heq⟩ := hstarts
    rw [heq] at hat'
    rw [next_item hat'] at hsame
    injection hsame with hsame
    -- the item that comes back now has the overwritten byte in its key
    have hkey : front'.key = front.key := congrArg (fun ret => (ret.1.2.getD out).key) hsame
    apply hx
    calc cells[it.offset]? = (leBytes 4 front.key.toNat)[0]? := front_cell hat
      _ = (leBytes 4 front'.key.toNat)[0]? := by rw [hkey]
      _ = cells'[it.offset]? := (front_cell hat').symm
      _ = some x := hcell
  · rw [next_ends hat' hstarts] at hsame
    injection hsame with hsame
    exact terminal_ne_item _ (congrArg (fun ret => ret.1.1) hsame)

/-- **The deadline of an item.** -/
theorem next_deadline (hg : Good P start capacity contents h p) (hs : p.state = .sync1)
    (hbuffer : p.payloadBuffer = some cells) (hat : At cells it rest)
    (hfits : it.payloadLength ≤ p.payloadCapacity) {out : UbxCfgValgetItem}
    {got : Option UbxCfgValgetItem} {next : UbxCfgValgetIterator}
    (hcall : nextCall P (some it) (some out) = .ok ((.item, got), some next)) (n : Nat) :
    (∀ later returns p', fedCount later = n →
      run (ParserCall.exec P) (some p) later = .ok (returns, some p') →
      nextOver P (some p') it (some out) = .ok ((.item, got), next)) ↔ n ≤ it.offset + 6 := by
  constructor
  · intro hall
    by_contra hlate
    unfold nextCall at hcall
    -- it is an item that the call returns, so one stands in front
    by_cases hstarts : StartsItem rest
    · obtain ⟨front, rest', rfl⟩ := hstarts
      obtain ⟨later, returns, p', hcount, hrun, hne⟩ :=
        next_changed hg hs hbuffer hat hfits out (Nat.lt_of_not_le hlate)
      rw [next_item hat] at hcall
      cases hcall
      exact hne _ (hall later returns p' hcount hrun)
    · rw [next_ends hat hstarts] at hcall
      injection hcall with hcall
      exact terminal_ne_item rest (congrArg (fun ret => ret.1.1) hcall)
  · intro hle later returns p' hcount hrun
    exact next_kept hg hs hbuffer hat hfits hrun (Or.inr (hcount ▸ hle)) hcall

/-- **A timely schedule** leaves everything alone that the iterator reads. -/
theorem Timely.undisturbed (hg : Good P start capacity contents h p) (hs : p.state = .sync1)
    (hbuffer : p.payloadBuffer = some cells) (hat : At cells it rest)
    (hfits : it.payloadLength ≤ p.payloadCapacity)
    {schedule : List (ParserCall ⊕ Option UbxCfgValgetItem)} (htimely : Timely P it schedule) :
    Undisturbed (ParserCall.exec P) (nextOver P) (some p) (some p) it schedule := by
  rintro before item after rfl fed s rets it₁ hleft hright
  -- where the two stand at this call, each by its own run
  obtain ⟨fed', q, hleft', -, -⟩ := later_kept hg hs (lefts before)
  rw [hleft] at hleft'
  cases hleft'
  obtain ⟨rets', it₂, rest₂, hcalls, hright', hat₂, hlength⟩ :=
    run_nextCall (P := P) (q := some p) hbuffer (rights before) hat
  rw [hright] at hright'
  cases hright'
  have hself : At cells (onPayload it₁ (some cells)) rest₂ := by
    rwa [onPayload_self hat₂.payload]
  obtain ⟨ret, next, -, hcall, -, -⟩ := nextCall_step (P := P) hat₂ item
  calc nextOver P (some q) it₁ item
      = .ok (ret, next) := next_kept hg hs hbuffer hat₂ (hlength ▸ hfits) hleft
          (htimely before item after rfl rets it₁ hcalls) hcall
    _ = nextOver P (some p) it₁ item :=
          (nextOver_of_nextCall (q := some p) hbuffer hat₂ hself hcall).symm

end

/-- **Iterating while feeding.** Behind a delivered VALGET response any timely
schedule of feeds, resets and calls of the iterator returns: the parser answers
as it would without the iterator, and the iterator as it would without the
parser. And the time is exact: the call that returns an item returns it whatever
was fed if and only if that is no more than the iterator's offset and six bytes. -/
theorem iterated_while_fed {P : Platform} {buffer : Option (List UInt8)} {capacity : Nat}
    (hbuf : BufferOk buffer capacity) {calls : List ParserCall} {returns : List ParserReturn}
    {p : UbxParser} (hreach : Reaches P buffer capacity calls returns p) {byte : UInt8}
    {old frame : UbxFrame} {parser : Option UbxParser}
    (hfeed : ubxParserFeed P (some p) byte (some old)
      = .ok ((.frameComplete, some frame), parser)) {iterator it : UbxCfgValgetIterator}
    (hinit : ubxCfgValgetIteratorInit (some frame) (some iterator) = .ok (.ok, some it)) :
    (∀ schedule : List (ParserCall ⊕ Option UbxCfgValgetItem), Timely P it schedule →
      ∃ outs p' it',
        run (interleave (ParserCall.exec P) (nextOver P)) (parser, it) schedule
          = .ok (outs, (some p', it')) ∧
        run (ParserCall.exec P) parser (lefts schedule) = .ok (lefts outs, some p') ∧
        run (nextCall P) (some it) (rights schedule) = .ok (rights outs, some it') ∧
        outs.map Sum.isLeft = schedule.map Sum.isLeft) ∧
    ∀ items rets it', run (nextCall P) (some it) items = .ok (rets, some it') →
      ∀ out got next, nextCall P (some it') (some out) = .ok ((.item, got), some next) → ∀ n,
      (∀ later returns' p', fedCount later = n →
        run (ParserCall.exec P) parser later = .ok (returns', some p') →
        nextOver P (some p') it' (some out) = .ok ((.item, got), next)) ↔
      n ≤ it'.offset + 6 := by
  obtain ⟨start, hg, -⟩ := hreach.good hbuf
  have hreadable := (delivered hbuf hreach hfeed).readable
  obtain ⟨hs, hlength, hpayload, rfl⟩ := feed_complete hfeed
  obtain ⟨cells, hcells, -, hitlength, hat⟩ := init_ok hreadable hinit
  have hg' := good_reset hg
  have hbuffer : p.reset.payloadBuffer = some cells := hpayload.symm.trans hcells
  have hfits : it.payloadLength ≤ p.reset.payloadCapacity := by
    rw [hitlength, hlength]
    exact hg.delivered_fits hs
  refine ⟨?_, ?_⟩
  · intro schedule htimely
    obtain ⟨fed, p', hleft, -, -⟩ := later_kept hg' rfl (lefts schedule)
    obtain ⟨rets, it', -, hright, hover, -, -⟩ :=
      run_nextCall (P := P) (q := some p.reset) hbuffer (rights schedule) hat
    obtain ⟨outs, hrun, rfl, rfl, htags⟩ := interleave_runs schedule (some p.reset) it fed rets
      (htimely.undisturbed hg' rfl hbuffer hat hfits) hleft hover
    exact ⟨outs, p', it', hrun, hleft, hright, htags⟩
  · intro items rets it' hright out got next hcall n
    obtain ⟨rets', it₁, rest, hright', -, hat', hlength'⟩ :=
      run_nextCall (P := P) (q := some p.reset) hbuffer items hat
    rw [hright] at hright'
    cases hright'
    exact next_deadline hg' rfl hbuffer hat' (hlength' ▸ hfits) hcall n

/-- One setting behind the header: ten bytes of a next frame may go before it is
read, and the eleventh is one too many. -/
theorem iterated_while_fed_ten :
    (∃ outs p' it', run (interleave (ParserCall.exec Platform.size32) (nextOver Platform.size32))
        (some ⟨.sync1, some [1, 0, 0, 0, 1, 0, 0, 0x10, 1], 9, 0, 0, 0, 0, 0, 0, 0, 0⟩,
          ⟨some [1, 0, 0, 0, 1, 0, 0, 0x10, 1], 9, 4, 0, 0⟩)
        ([0xB5, 0x62, 6, 0x8B, 9, 0, 7, 7, 7, 7].map (fun b => .inl (.feed b none))
          ++ [.inr (some ⟨0, .l, 0, Vector.replicate 8 0⟩)]) = .ok (outs, (some p', it')) ∧
      rights outs
        = [(.item, some ⟨0x10000001, .l, 1, #v[1, 0, 0, 0, 0, 0, 0, 0]⟩)]) ∧
    ¬ ∀ later returns p', fedCount later = 11 →
      run (ParserCall.exec Platform.size32)
        (some ⟨.sync1, some [1, 0, 0, 0, 1, 0, 0, 0x10, 1], 9, 0, 0, 0, 0, 0, 0, 0, 0⟩) later
          = .ok (returns, some p') →
      nextOver Platform.size32 (some p') ⟨some [1, 0, 0, 0, 1, 0, 0, 0x10, 1], 9, 4, 0, 0⟩
          (some ⟨0, .l, 0, Vector.replicate 8 0⟩)
        = .ok ((.item, some ⟨0x10000001, .l, 1, #v[1, 0, 0, 0, 0, 0, 0, 0]⟩),
          ⟨some [1, 0, 0, 0, 1, 0, 0, 0x10, 1], 9, 9, 0, 0⟩) := by
  have hbuf : BufferOk (some (List.replicate 9 0)) 9 := fun cells h => by
    cases h
    exact Nat.le_refl 9
  have hreach : Reaches Platform.size32 (some (List.replicate 9 0)) 9
      ([0xB5, 0x62, 6, 0x8B, 9, 0, 1, 0, 0, 0, 1, 0, 0, 0x10, 1, 0xAD].map fun b => .feed b none)
      (List.replicate 16 (.fed .inProgress none))
      ⟨.checksumB, some [1, 0, 0, 0, 1, 0, 0, 0x10, 1], 9, 9, 6, 0x8B, 9, 0xAD, 0x64, 0xAD, 0⟩ :=
    ⟨zeroParser, rfl⟩
  have hfeed : ubxParserFeed Platform.size32
      (some
        ⟨.checksumB, some [1, 0, 0, 0, 1, 0, 0, 0x10, 1], 9, 9, 6, 0x8B, 9, 0xAD, 0x64, 0xAD, 0⟩)
      0x64 (some ⟨0, 0, 0, none⟩)
        = .ok ((.frameComplete, some ⟨6, 0x8B, 9, some [1, 0, 0, 0, 1, 0, 0, 0x10, 1]⟩),
          some ⟨.sync1, some [1, 0, 0, 0, 1, 0, 0, 0x10, 1], 9, 0, 0, 0, 0, 0, 0, 0, 0⟩) := rfl
  have hinit : ubxCfgValgetIteratorInit
      (some ⟨6, 0x8B, 9, some [1, 0, 0, 0, 1, 0, 0, 0x10, 1]⟩) (some ⟨none, 0, 0, 0, 0⟩)
        = .ok (.ok, some ⟨some [1, 0, 0, 0, 1, 0, 0, 0x10, 1], 9, 4, 0, 0⟩) := rfl
  have hnext : nextCall Platform.size32 (some ⟨some [1, 0, 0, 0, 1, 0, 0, 0x10, 1], 9, 4, 0, 0⟩)
      (some ⟨0, .l, 0, Vector.replicate 8 0⟩)
        = .ok ((.item, some ⟨0x10000001, .l, 1, #v[1, 0, 0, 0, 0, 0, 0, 0]⟩),
          some ⟨some [1, 0, 0, 0, 1, 0, 0, 0x10, 1], 9, 9, 0, 0⟩) := rfl
  obtain ⟨hschedule, hdeadline⟩ := iterated_while_fed hbuf hreach hfeed hinit
  refine ⟨?_, ?_⟩
  · obtain ⟨outs, p', it', hrun, -, hrets, -⟩ := hschedule
      ([0xB5, 0x62, 6, 0x8B, 9, 0, 7, 7, 7, 7].map (fun b => .inl (.feed b none))
        ++ [.inr (some ⟨0, .l, 0, Vector.replicate 8 0⟩)])
      (by
        -- the one call of the iterator has nothing but the ten bytes before it
        intro before item after hsplit rets it' hcalls
        have hfed : 10 = fedCount (lefts before) + fedCount (lefts after) := by
          rw [← fedCount_append]
          exact congrArg fedCount ((congrArg lefts hsplit).trans (lefts_append before _))
        have hturns : 1 = (rights before).length + ((rights after).length + 1) := by
          rw [← List.length_cons, ← List.length_append]
          exact congrArg List.length ((congrArg rights hsplit).trans (rights_append before _))
        have hnone : rights before = [] := List.length_eq_zero_iff.mp (by omega)
        rw [hnone] at hcalls
        cases hcalls
        exact Or.inr (show fedCount (lefts before) ≤ 10 by omega))
    have hone := hrets.symm.trans (run_cons hnext rfl)
    exact ⟨outs, p', it', hrun, congrArg Prod.fst (Except.ok.inj hone)⟩
  · intro hall
    have hle := (hdeadline [] [] _ rfl _ _ _ hnext 11).mp hall
    exact absurd hle (Nat.not_succ_le_self 10)

end Ubx.Decode
