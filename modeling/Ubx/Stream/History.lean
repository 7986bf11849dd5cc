import Ubx.Stream.Encoder
import Ubx.Stream.Refine

/-!
# The parser and what was fed to it

`Good` ties a parser to the whole list of calls made since `ubx_parser_init`,
with what they returned: the frame in progress is the end of the list of bytes
fed, all of them answered with `IN_PROGRESS`, none of them before a reset.
`good_feed` and `good_reset` are the steps and `session_good` the run.

* `feed_eq_scan`: from `SYNC_1` on, the results are those of the scanner,
  whatever was fed before.
* `parser_invariant`: what each state says about the record, the buffer and the
  bytes fed, and that the one store is in bounds.
* `frame_complete_encoded`: a frame that is reported is what the encoder writes,
  byte for byte.
-/

namespace Ubx.Stream

open Lib

/-- Calls made, each with what it returned. -/
abbrev History := List (ParserCall × ParserReturn)

/-- Bytes fed one after the other, each answered with `IN_PROGRESS`. -/
def quiet (inputs : List (UInt8 × Option UbxFrame)) : History :=
  inputs.map fun input => (.feed input.1 input.2, .fed .inProgress input.2)

/-- The history ends with these bytes, none of which led to a result. -/
def EndsQuiet (h : History) (bytes : List UInt8) : Prop :=
  ∃ before inputs, h = before ++ quiet inputs ∧ inputs.map Prod.fst = bytes

/-- The calls of the history lead from `start` to `p`. -/
def Leads (P : Platform) (start : Option UbxParser) (h : History) (p : UbxParser) : Prop :=
  run (ParserCall.exec P) start (h.map Prod.fst) = .ok (h.map Prod.snd, some p)

/-- `body` is what was fed since the parser entered `CLASS`, right behind a sync
pair. -/
def SinceSync (P : Platform) (start : Option UbxParser) (h : History) (body : List UInt8) : Prop :=
  ∃ before inputs p, h = before ++ quiet inputs ∧ inputs.map Prod.fst = body ∧
    EndsQuiet before [0xB5, 0x62] ∧ Leads P start before p ∧ p.state = .class_

/-- The frame in progress is the end of the history. -/
def Progress (P : Platform) (start : Option UbxParser) (h : History) (p : UbxParser) : Prop :=
  ∃ pending, Rep p pending ∧ EndsQuiet h pending ∧
    ∀ body, pending = 0xB5 :: 0x62 :: body → SinceSync P start h body

/-- A frame that does not fit is being discarded. How much of it is left is
known exactly where `size_t` holds its length. -/
structure Swallowing (P : Platform) (p : UbxParser) : Prop where
  state : p.state = .discard
  length : p.payloadCapacity < p.payloadLength.toNat
  remaining : p.discardRemaining ≤ p.payloadLength.toNat + 2
  rep : 17 ≤ P.sizeBits → ∃ pending, Rep p pending

/-- What is known of the parser that a history leads to. -/
structure Good (P : Platform) (start : Option UbxParser) (capacity : Nat)
    (contents : Option (List UInt8)) (h : History) (p : UbxParser) : Prop where
  leads : Leads P start h p
  buffer : BufferInv p
  capacity_eq : p.payloadCapacity = capacity
  beyond : p.payloadBuffer.map (List.drop capacity) = contents.map (List.drop capacity)
  progress : Progress P start h p ∨ Swallowing P p

/-! ## One call -/

variable {P : Platform} {start : Option UbxParser} {h : History} {p p' : UbxParser}

theorem EndsQuiet.nil (h : History) : EndsQuiet h [] :=
  ⟨h, [], (List.append_nil h).symm, rfl⟩

theorem quiet_append_singleton (inputs : List (UInt8 × Option UbxFrame)) (byte : UInt8)
    (frame : Option UbxFrame) :
    quiet (inputs ++ [(byte, frame)])
      = quiet inputs ++ [(.feed byte frame, .fed .inProgress frame)] := by
  rw [quiet, List.map_append]
  rfl

theorem EndsQuiet.feed {bytes : List UInt8} (hq : EndsQuiet h bytes) (byte : UInt8)
    (frame : Option UbxFrame) :
    EndsQuiet (h ++ [(.feed byte frame, .fed .inProgress frame)]) (bytes ++ [byte]) := by
  obtain ⟨before, inputs, rfl, rfl⟩ := hq
  refine ⟨before, inputs ++ [(byte, frame)], ?_, List.map_append⟩
  rw [quiet_append_singleton, List.append_assoc]

theorem SinceSync.feed {body : List UInt8} (hs : SinceSync P start h body) (byte : UInt8)
    (frame : Option UbxFrame) :
    SinceSync P start (h ++ [(.feed byte frame, .fed .inProgress frame)]) (body ++ [byte]) := by
  obtain ⟨before, inputs, p, rfl, rfl, hpair, hleads, hclass⟩ := hs
  refine ⟨before, inputs ++ [(byte, frame)], p, ?_, List.map_append, hpair, hleads, hclass⟩
  rw [quiet_append_singleton, List.append_assoc]

/-- One more call at the end of a run. -/
theorem Leads.call (hl : Leads P start h p) {call : ParserCall} {ret : ParserReturn}
    (hexec : call.exec P (some p) = .ok (ret, some p')) :
    Leads P start (h ++ [(call, ret)]) p' := by
  unfold Leads
  rw [List.map_append, List.map_append]
  exact run_append hl (run_cons hexec rfl)

theorem exec_feed {byte : UInt8} {frame : Option UbxFrame} {out : UbxParseResult × Option UbxFrame}
    (hfeed : ubxParserFeed P (some p) byte frame = .ok (out, some p')) :
    (ParserCall.feed byte frame).exec P (some p) = .ok (.fed out.1 out.2, some p') := by
  rw [ParserCall.exec, hfeed]
  rfl

theorem Rep.index_lt {pending : List UInt8} (hr : Rep p pending) (hs : p.state = .payload) :
    p.payloadIndex < p.payloadCapacity := by
  cases hr with
  | payload _ hp hh hlt =>
    rw [hp.index_eq]
    exact Nat.lt_of_lt_of_le hlt hh.fits
  | _ hs' =>
    rw [hs'] at hs
    exact nomatch hs

/-- Cells from the capacity on are never stored to. -/
theorem feed_beyond {byte : UInt8} {frame : Option UbxFrame}
    {out : UbxParseResult × Option UbxFrame}
    (hindex : p.state = .payload → p.payloadIndex < p.payloadCapacity)
    (hfeed : ubxParserFeed P (some p) byte frame = .ok (out, some p')) :
    p'.payloadBuffer.map (List.drop p.payloadCapacity)
      = p.payloadBuffer.map (List.drop p.payloadCapacity) := by
  obtain ⟨_, hp', hfed⟩ := feed_inv hfeed
  cases hp'
  by_cases hs : p.state = .payload
  · obtain ⟨cells, hcells, -, hstored⟩ := store_eq_ok.mp (hfed.stored hs)
    rw [hstored, hcells, Option.map_some, Option.map_some, List.drop_set_of_lt (hindex hs)]
  · rw [hfed.kept hs]

/-- A call answered with `IN_PROGRESS` or `OVERSIZE` returns that and leaves the
caller's frame alone. -/
theorem Answers.inProgress {frame : Option UbxFrame} {report : Report}
    {out : UbxParseResult × Option UbxFrame} (ha : Answers p frame report out)
    (hreport : report = .inProgress) : out = (.inProgress, frame) := by
  subst hreport
  exact ha

/-- The frame in progress after a call, in terms of the history. -/
theorem progress_feed {pending : List UInt8} (hl : Leads P start h p)
    (hends : EndsQuiet h pending)
    (hsince : ∀ body, pending = 0xB5 :: 0x62 :: body → SinceSync P start h body)
    {byte : UInt8} {frame : Option UbxFrame} {out : UbxParseResult × Option UbxFrame}
    (hfeed : ubxParserFeed P (some p) byte frame = .ok (out, some p'))
    (ha : Answers p frame (assemble p.payloadCapacity pending byte).1 out)
    (hr' : Rep p' (assemble p.payloadCapacity pending byte).2)
    (hreport : (assemble p.payloadCapacity pending byte).1 ≠ .oversize) :
    Progress P start (h ++ [(.feed byte frame, .fed out.1 out.2)]) p' := by
  have hcall := hl.call (exec_feed hfeed)
  rcases assemble_next p.payloadCapacity pending byte with hnil | ⟨hgoes, hnext⟩
  · -- the frame is over, or was none
    rw [hnil] at hr'
    exact ⟨[], hr', .nil _, fun _ hpair => (nomatch hpair)⟩
  · rw [ha.inProgress (hgoes.resolve_right hreport)] at hcall ⊢
    rcases hnext with hnext | ⟨rfl, hnext⟩
    · rw [hnext] at hr'
      refine ⟨_, hr', hends.feed byte frame, ?_⟩
      intro body hpair
      -- the pair is completed by this byte, or was there before
      match pending, hpair with
      | [_], hpair =>
        cases hpair
        have hclass : p'.state = .class_ := by
          cases hr' with
          | class_ hs => exact hs
        exact ⟨_, [], p', (List.append_nil _).symm, rfl, hends.feed _ frame, hcall, hclass⟩
      | _ :: _ :: body', hpair =>
        cases hpair
        exact (hsince body' rfl).feed byte frame
    · -- the hunt starts again at this byte
      rw [hnext] at hr'
      exact ⟨_, hr', (EndsQuiet.nil h).feed _ frame, fun _ hpair => (nomatch hpair)⟩

theorem Rep.not_oversize {pending : List UInt8} {byte : UInt8} (hr : Rep p pending)
    (hfit : Fits p byte) : (assemble p.payloadCapacity pending byte).1 ≠ .oversize := by
  intro hreport
  obtain ⟨a, b, c, i, l1, rfl, hover⟩ := assemble_oversize hreport
  cases hr with
  | length2 hs _ _ _ hl => exact absurd (hfit.2 l1 hs hl) (by omega)

variable {capacity : Nat} {contents : Option (List UInt8)}

/-- What `Good` says beside the progress is kept by any call that returns. -/
theorem Good.feed (hg : Good P start capacity contents h p)
    (hindex : p.state = .payload → p.payloadIndex < p.payloadCapacity) {byte : UInt8}
    {frame : Option UbxFrame} {out : UbxParseResult × Option UbxFrame}
    (hfeed : ubxParserFeed P (some p) byte frame = .ok (out, some p')) (hb' : BufferInv p')
    (hprogress : Progress P start (h ++ [(.feed byte frame, .fed out.1 out.2)]) p' ∨
      Swallowing P p') :
    Good P start capacity contents (h ++ [(.feed byte frame, .fed out.1 out.2)]) p' := by
  refine ⟨hg.leads.call (exec_feed hfeed), hb', ?_, ?_, hprogress⟩
  · obtain ⟨_, hp', hfed⟩ := feed_inv hfeed
    cases hp'
    rw [hfed.capacity, hg.capacity_eq]
  · rw [← hg.beyond, ← hg.capacity_eq, feed_beyond hindex hfeed]

/-- A wide `size_t` keeps count of what is to be discarded. -/
theorem rep_feed (hP : 17 ≤ P.sizeBits) {pending : List UInt8} (hb : BufferInv p)
    (hr : Rep p pending) {byte : UInt8} {frame : Option UbxFrame}
    {out : UbxParseResult × Option UbxFrame}
    (hfeed : ubxParserFeed P (some p) byte frame = .ok (out, some p')) :
    ∃ pending', Rep p' pending' := by
  obtain ⟨out₁, p₁, hfeed₁, -, hr₁, -, -⟩ := feed_step hP hb hr byte frame
  rw [hfeed] at hfeed₁
  cases hfeed₁
  exact ⟨_, hr₁⟩

theorem Rep.discard_clause {pending : List UInt8} (hr : Rep p pending) (hs : p.state = .discard) :
    p.payloadCapacity < p.payloadLength.toNat ∧
    1 ≤ p.discardRemaining ∧ p.discardRemaining ≤ p.payloadLength.toNat + 2 := by
  cases hr with
  | discard _ hl hover hlt hleft =>
    rw [hl, length_value, hleft]
    omega
  | _ hs' =>
    rw [hs'] at hs
    exact nomatch hs

theorem good_discard (hg : Good P start capacity contents h p) (hs : Swallowing P p)
    (byte : UInt8) (frame : Option UbxFrame) :
    ∃ out p', ubxParserFeed P (some p) byte frame = .ok (out, some p') ∧
      Good P start capacity contents (h ++ [(.feed byte frame, .fed out.1 out.2)]) p' := by
  obtain ⟨p', hfeed, hbuffer, hcap, hlast, hmore⟩ := feed_discard (P := P) hs.state byte frame
  have hb' : BufferInv p' := hg.buffer.of_eq hbuffer hcap
  refine ⟨_, p', hfeed, hg.feed (fun h => ?_) hfeed hb' ?_⟩
  · rw [hs.state] at h
    exact nomatch h
  · rcases Nat.lt_or_ge 1 p.discardRemaining with hleft | hleft
    · obtain ⟨hstate, hlength, hcount⟩ := hmore hleft
      have hremaining := hs.remaining
      refine Or.inr ⟨hstate, ?_, ?_, ?_⟩
      · rw [hcap, hlength]
        exact hs.length
      · rw [hlength, hcount]
        omega
      · intro hP
        obtain ⟨pending, hr⟩ := hs.rep hP
        exact rep_feed hP hg.buffer hr hfeed
    · exact Or.inl ⟨[], .sync1 (hlast hleft), .nil _, fun _ hpair => (nomatch hpair)⟩

theorem good_oversize (hg : Good P start capacity contents h p) {pending : List UInt8}
    (hr : Rep p pending) {l1 : UInt8} (hs : p.state = .length2)
    (hl : p.payloadLength = l1.toUInt16) (byte : UInt8) (frame : Option UbxFrame)
    (hover : p.payloadCapacity < leValue [l1, byte]) :
    ∃ out p', ubxParserFeed P (some p) byte frame = .ok (out, some p') ∧
      Good P start capacity contents (h ++ [(.feed byte frame, .fed out.1 out.2)]) p' := by
  obtain ⟨p', hfeed, hs', hlength, hleft, hbuffer, hcap⟩ := feed_oversize (P := P) hs hl byte
    frame hover
  have hb' : BufferInv p' := hg.buffer.of_eq hbuffer hcap
  refine ⟨_, p', hfeed, hg.feed (fun h => ?_) hfeed hb' (Or.inr ⟨hs', ?_, ?_, ?_⟩)⟩
  · rw [hs] at h
    exact nomatch h
  · rwa [hlength, hcap, length_value]
  · rw [hlength, hleft, length_value]
    exact Nat.mod_le _ _
  · intro hP
    exact rep_feed hP hg.buffer hr hfeed

/-- **One feed** returns and keeps `Good`. -/
theorem good_feed (hg : Good P start capacity contents h p) (byte : UInt8)
    (frame : Option UbxFrame) :
    ∃ out p', ubxParserFeed P (some p) byte frame = .ok (out, some p') ∧
      Good P start capacity contents (h ++ [(.feed byte frame, .fed out.1 out.2)]) p' := by
  -- what does not fit is told apart first: only there does the width of `size_t` count
  rcases hg.progress with ⟨pending, hr, hends, hsince⟩ | hs
  · by_cases hfit : Fits p byte
    · obtain ⟨out, p', hfeed, ha, hr', hb', -⟩ :=
        feed_step_fits (P := P) hg.buffer hr byte frame hfit
      exact ⟨out, p', hfeed, hg.feed hr.index_lt hfeed hb'
        (Or.inl (progress_feed hg.leads hends hsince hfeed ha hr' (hr.not_oversize hfit)))⟩
    · by_cases hs : p.state = .discard
      · obtain ⟨hover, -, hleft⟩ := hr.discard_clause hs
        exact good_discard hg ⟨hs, hover, hleft, fun _ => ⟨pending, hr⟩⟩ byte frame
      · -- the header is complete, and its length beyond the capacity
        have hover : ∃ l1 : UInt8, p.state = .length2 ∧ p.payloadLength = l1.toUInt16 ∧
            p.payloadCapacity < leValue [l1, byte] := by
          by_contra hnone
          refine hfit ⟨hs, fun l1 hs' hl => Nat.le_of_not_lt fun hlt => hnone ?_⟩
          exact ⟨l1, hs', hl, hlt⟩
        obtain ⟨l1, hs', hl, hover⟩ := hover
        exact good_oversize hg hr hs' hl byte frame hover
  · exact good_discard hg hs byte frame

/-- A reset keeps `Good`: nothing is in progress. -/
theorem good_reset (hg : Good P start capacity contents h p) :
    Good P start capacity contents (h ++ [(.reset, .wasReset)]) p.reset :=
  ⟨hg.leads.call rfl, hg.buffer.reset, hg.capacity_eq, hg.beyond,
    Or.inl ⟨[], Rep.reset p, .nil _, fun _ hpair => (nomatch hpair)⟩⟩

theorem good_init {buffer : Option (List UInt8)} {capacity : Nat} (hbuf : BufferOk buffer capacity)
    (before : UbxParser) :
    ∃ p, ubxParserInit (some before) buffer capacity = some p ∧
      Good P (some p) (capacityOf buffer capacity) buffer [] p := by
  refine ⟨_, rfl, rfl, ⟨fun hnone => ?_, fun cells hcells => ?_⟩, rfl, rfl,
    Or.inl ⟨[], .sync1 rfl, .nil _, fun _ hpair => (nomatch hpair)⟩⟩
  · exact if_neg (by rw [show buffer = none from hnone]; exact nofun)
  · have hcap := hbuf cells hcells
    exact Nat.le_trans (Nat.le_of_eq (if_pos (by rw [show buffer = some cells from hcells]; rfl)))
      hcap

/-- **Every session** returns, and its history is the parser's. -/
theorem session_good {buffer : Option (List UInt8)} {capacity : Nat}
    (hbuf : BufferOk buffer capacity) (before : UbxParser) (calls : List ParserCall) :
    ∃ returns p,
      run (ParserCall.exec P) (ubxParserInit (some before) buffer capacity) calls
        = .ok (returns, some p) ∧
      Good P (ubxParserInit (some before) buffer capacity) (capacityOf buffer capacity) buffer
        (calls.zip returns) p := by
  obtain ⟨p₀, hinit, hg₀⟩ := good_init (P := P) hbuf before
  rw [hinit]
  have hstep : ∀ h s call, (∃ p, s = some p ∧
        Good P (some p₀) (capacityOf buffer capacity) buffer h p) →
      ∃ ret s', call.exec P s = .ok (ret, s') ∧ ∃ p', s' = some p' ∧
        Good P (some p₀) (capacityOf buffer capacity) buffer (h ++ [(call, ret)]) p' := by
    intro h s call hs
    obtain ⟨p, rfl, hg⟩ := hs
    cases call with
    | feed byte frame =>
      obtain ⟨out, p', hfeed, hg'⟩ := good_feed hg byte frame
      exact ⟨_, _, exec_feed hfeed, p', rfl, hg'⟩
    | reset => exact ⟨_, _, rfl, _, rfl, good_reset hg⟩
  obtain ⟨returns, s, hrun, p, rfl, hg⟩ := run_inv _ hstep calls [] (some p₀) ⟨p₀, rfl, hg₀⟩
  exact ⟨returns, p, hrun, hg⟩

theorem Reaches.good {buffer : Option (List UInt8)} {capacity : Nat}
    (hbuf : BufferOk buffer capacity) {calls : List ParserCall} {returns : List ParserReturn}
    (hreach : Reaches P buffer capacity calls returns p) :
    ∃ start, Good P start (capacityOf buffer capacity) buffer (calls.zip returns) p ∧
      ∃ before, start = ubxParserInit (some before) buffer capacity := by
  obtain ⟨before, hrun⟩ := hreach
  obtain ⟨returns', p', hrun', hg⟩ := session_good (P := P) hbuf before calls
  rw [hrun] at hrun'
  cases hrun'
  exact ⟨_, hg, before, rfl⟩

/-- With a `size_t` that holds every frame length, a reachable parser stands for
a frame in progress. -/
theorem Good.rep (hP : 17 ≤ P.sizeBits) (hg : Good P start capacity contents h p) :
    ∃ pending, Rep p pending := by
  rcases hg.progress with ⟨pending, hr, -⟩ | hs
  · exact ⟨pending, hr⟩
  · exact hs.rep hP

/-! ## The results are the scanner's -/

theorem Rep.pending_nil {pending : List UInt8} (hr : Rep p pending) (hs : p.state = .sync1) :
    pending = [] := by
  cases hr with
  | sync1 => rfl
  | _ hs' =>
    rw [hs'] at hs
    exact nomatch hs

/-- **From `SYNC_1` on, the parser is the scanner.** Whatever was fed before,
the results on a byte list are those of the whole-list scanner, which knows of
the past nothing but the capacity. -/
theorem feed_eq_scan (hP : 17 ≤ P.sizeBits) {buffer : Option (List UInt8)} {capacity : Nat}
    (hbuf : BufferOk buffer capacity) {calls : List ParserCall} {returns : List ParserReturn}
    (hreach : Reaches P buffer capacity calls returns p) (hs : p.state = .sync1)
    (inputs : List (UInt8 × Option UbxFrame)) :
    ∃ outs p', run (feedStep P) (some p) inputs = .ok (outs, some p') ∧
      ShowAll inputs outs (scan (capacityOf buffer capacity) (inputs.map Prod.fst)) := by
  obtain ⟨start, hg, -⟩ := hreach.good hbuf
  obtain ⟨pending, hr⟩ := hg.rep hP
  -- in `SYNC_1` nothing of the history is pending
  have hnil := hr.pending_nil hs
  subst hnil
  obtain ⟨outs, p', hrun, hshow, -⟩ := run_follows hP hg.buffer hr inputs
  refine ⟨outs, p', hrun, ?_⟩
  rwa [hg.capacity_eq, assemble_eq_scan _ _ _ (Nat.le_refl _)] at hshow

/-- A false start and a reset first: a one-byte frame is reported at its last byte. -/
theorem feed_eq_scan_after_reset :
    ∃ outs p', run (feedStep Platform.size32) (some zeroParser)
        (feeds [0xB5, 0x62, 5, 1, 1, 0, 0x2A, 0x31, 0x4A] (some ⟨0, 0, 0, none⟩))
          = .ok (outs, some p') ∧
      ShowAll (feeds [0xB5, 0x62, 5, 1, 1, 0, 0x2A, 0x31, 0x4A] (some ⟨0, 0, 0, none⟩))
        outs (scan 2 [0xB5, 0x62, 5, 1, 1, 0, 0x2A, 0x31, 0x4A]) :=
  have hreach : Reaches Platform.size32 (some [0, 0]) 2 [.feed 0xB5 none, .reset]
      [.fed .inProgress none, .wasReset] zeroParser := ⟨zeroParser, rfl⟩
  feed_eq_scan (by decide) twoCells_ok hreach rfl _

/-! ## The representation invariant -/

/-- How many checksummed bytes have been fed since the sync pair, from `ID` to
`CHECKSUM_B`. -/
def UbxParser.bodyCount (p : UbxParser) : Option Nat :=
  match p.state with
  | .id => some 1
  | .length1 => some 2
  | .length2 => some 3
  | .payload => some (4 + p.payloadIndex)
  | .checksumA => some (4 + p.payloadIndex)
  | .checksumB => some (4 + p.payloadIndex)
  | _ => none

/-- The checksum byte received, in the one state that has received it. -/
def UbxParser.received (p : UbxParser) : List UInt8 :=
  if p.state = .checksumB then [p.receivedChecksumA] else []

/-- The calls end with feeds of `bytes`, right behind the sync pair that took
the parser to `CLASS`. -/
def FedSince (P : Platform) (buffer : Option (List UInt8)) (capacity : Nat)
    (calls : List ParserCall) (bytes : List UInt8) : Prop :=
  ∃ (before : List ParserCall) (frame₁ frame₂ : Option UbxFrame)
    (inputs : List (UInt8 × Option UbxFrame)) (returns : List ParserReturn) (p : UbxParser),
    calls = before ++ [.feed 0xB5 frame₁, .feed 0x62 frame₂]
      ++ inputs.map (fun input => .feed input.1 input.2) ∧
    inputs.map Prod.fst = bytes ∧
    Reaches P buffer capacity (before ++ [.feed 0xB5 frame₁, .feed 0x62 frame₂]) returns p ∧
    p.state = .class_

/-- What each state says. A `size_t` of 16 bits is the only one in which
`payload_length + 2` may wrap, to a `discard_remaining` of 0. -/
structure Invariant (P : Platform) (buffer : Option (List UInt8)) (capacity : Nat)
    (calls : List ParserCall) (p : UbxParser) : Prop where
  named : ∀ value, p.state ≠ .other value
  payload : p.state = .payload →
    (∃ cells, p.payloadBuffer = some cells ∧ p.payloadIndex < cells.length) ∧
    p.payloadIndex < p.payloadLength.toNat ∧ p.payloadLength.toNat ≤ p.payloadCapacity
  checksum : p.state = .checksumA ∨ p.state = .checksumB →
    p.payloadIndex = p.payloadLength.toNat ∧ p.payloadLength.toNat ≤ p.payloadCapacity
  discard : p.state = .discard →
    p.payloadCapacity < p.payloadLength.toNat ∧
    p.discardRemaining ≤ p.payloadLength.toNat + 2 ∧
    (17 ≤ P.sizeBits → 1 ≤ p.discardRemaining)
  body : ∀ n, p.bodyCount = some n → ∃ body : List UInt8,
    body.length = n ∧ FedSince P buffer capacity calls (body ++ p.received) ∧
    (p.checksumA, p.checksumB) = Fletcher.sums body ∧
    (p.payloadBuffer.getD []).take p.payloadIndex = body.drop 4

theorem Rep.named {pending : List UInt8} (hr : Rep p pending) (value : Nat) :
    p.state ≠ .other value := by
  intro hs
  cases hr with
  | _ hs' =>
    rw [hs'] at hs
    exact nomatch hs

theorem Rep.payload_clause {pending : List UInt8} (hr : Rep p pending) (hb : BufferInv p)
    (hs : p.state = .payload) :
    (∃ cells, p.payloadBuffer = some cells ∧ p.payloadIndex < cells.length) ∧
    p.payloadIndex < p.payloadLength.toNat ∧ p.payloadLength.toNat ≤ p.payloadCapacity := by
  cases hr with
  | payload _ hp hh hlt =>
    rw [hp.index_eq, hh.length, length_value]
    obtain ⟨cells, hcells, hlen, -⟩ := store_payload hb hh hlt 0
    exact ⟨⟨cells, hcells, hlen⟩, hlt, hh.fits⟩
  | _ hs' =>
    rw [hs'] at hs
    exact nomatch hs

theorem Rep.checksum_clause {pending : List UInt8} (hr : Rep p pending)
    (hs : p.state = .checksumA ∨ p.state = .checksumB) :
    p.payloadIndex = p.payloadLength.toNat ∧ p.payloadLength.toNat ≤ p.payloadCapacity := by
  cases hr with
  | checksumA _ hp hh hlen =>
    rw [hp.index_eq, hh.length, length_value]
    exact ⟨hlen, hh.fits⟩
  | checksumB _ hp hh hlen =>
    rw [hp.index_eq, hh.length, length_value]
    exact ⟨hlen, hh.fits⟩
  | _ hs' =>
    rw [hs'] at hs
    exact nomatch hs

/-- The checksummed bytes, read off the frame in progress. -/
theorem Rep.body {pending : List UInt8} (hr : Rep p pending) {n : Nat}
    (hn : p.bodyCount = some n) :
    ∃ body, pending = 0xB5 :: 0x62 :: (body ++ p.received) ∧ body.length = n ∧
      (p.checksumA, p.checksumB) = Fletcher.sums body ∧
      (p.payloadBuffer.getD []).take p.payloadIndex = body.drop 4 := by
  unfold UbxParser.bodyCount at hn
  unfold UbxParser.received
  cases hr with
  | id hs hp | length1 hs hp | length2 hs hp =>
    simp only [hs] at hn ⊢
    cases hn
    refine ⟨_, rfl, rfl, hp.sums, ?_⟩
    rw [hp.index]
    rfl
  | payload hs hp hh | checksumA hs hp hh =>
    simp only [hs] at hn ⊢
    cases hn
    refine ⟨_, ?_, ?_, hp.sums, ?_⟩
    · rw [if_neg nofun, List.append_nil]
      rfl
    · rw [hp.index_eq, List.length_append]
      rfl
    · rw [hp.index_eq, hh.buffer]
      rfl
  | checksumB hs hp hh _ ha =>
    simp only [hs] at hn ⊢
    cases hn
    refine ⟨_, ?_, ?_, hp.sums, ?_⟩
    · rw [if_pos trivial, ha, List.append_assoc]
      rfl
    · rw [hp.index_eq, List.length_append]
      rfl
    · rw [hp.index_eq, hh.buffer]
      rfl
  | _ hs =>
    rw [hs] at hn
    exact nomatch hn

theorem map_fst_quiet (inputs : List (UInt8 × Option UbxFrame)) :
    (quiet inputs).map Prod.fst = inputs.map fun input => ParserCall.feed input.1 input.2 := by
  rw [quiet, List.map_map]
  rfl

/-- The history's end, in terms of the calls. -/
theorem SinceSync.fedSince {buffer : Option (List UInt8)} {capacity : Nat} {before : UbxParser}
    {body : List UInt8} (hs : SinceSync P (ubxParserInit (some before) buffer capacity) h body) :
    FedSince P buffer capacity (h.map Prod.fst) body := by
  obtain ⟨h₀, inputs, p, rfl, hbody, ⟨h₁, pair, rfl, hpair⟩, hleads, hclass⟩ := hs
  match pair, hpair with
  | [(b₁, f₁), (b₂, f₂)], hpair =>
    cases hpair
    have hcalls : (h₁ ++ quiet [(0xB5, f₁), (0x62, f₂)]).map Prod.fst
        = h₁.map Prod.fst ++ [.feed 0xB5 f₁, .feed 0x62 f₂] := List.map_append
    have hreach : Reaches P buffer capacity (h₁.map Prod.fst ++ [.feed 0xB5 f₁, .feed 0x62 f₂])
        ((h₁ ++ quiet [(0xB5, f₁), (0x62, f₂)]).map Prod.snd) p := by
      rw [← hcalls]
      exact ⟨before, hleads⟩
    refine ⟨h₁.map Prod.fst, f₁, f₂, inputs, _, p, ?_, hbody, hreach, hclass⟩
    rw [List.map_append, map_fst_quiet]
    exact congrArg (· ++ _) hcalls

theorem Good.invariant {buffer : Option (List UInt8)} {capacity : Nat} {before : UbxParser}
    {calls : List ParserCall}
    (hg : Good P (ubxParserInit (some before) buffer capacity) (capacityOf buffer capacity) buffer
      h p) (hcalls : h.map Prod.fst = calls) : Invariant P buffer capacity calls p := by
  rcases hg.progress with ⟨pending, hr, -, hsince⟩ | hs
  · refine ⟨hr.named, hr.payload_clause hg.buffer, hr.checksum_clause, ?_, ?_⟩
    · intro hs
      obtain ⟨hover, hpos, hleft⟩ := hr.discard_clause hs
      exact ⟨hover, hleft, fun _ => hpos⟩
    · intro n hn
      obtain ⟨body, hpending, hlen, hsums, hbuffer⟩ := hr.body hn
      refine ⟨body, hlen, ?_, hsums, hbuffer⟩
      rw [← hcalls]
      exact (hsince _ hpending).fedSince
  · -- the other states ask nothing of a frame that is discarded
    have hstate := hs.state
    refine ⟨fun value => ?_, fun h => ?_, fun h => ?_, fun _ => ?_, fun n hn => ?_⟩
    · rw [hstate]
      exact nofun
    · rw [hstate] at h
      exact nomatch h
    · rw [hstate] at h
      rcases h with h | h
      · exact nomatch h
      · exact nomatch h
    · refine ⟨hs.length, hs.remaining, ?_⟩
      intro hP
      obtain ⟨pending, hr⟩ := hs.rep hP
      exact (hr.discard_clause hstate).2.1
    · rw [UbxParser.bodyCount, hstate] at hn
      exact nomatch hn

/-- What one feed does to the buffer of a parser whose store is in bounds. -/
theorem feed_stores {byte : UInt8} {frame : Option UbxFrame}
    {out : UbxParseResult × Option UbxFrame}
    (hfeed : ubxParserFeed P (some p) byte frame = .ok (out, some p')) :
    p'.payloadBuffer = if p.state = .payload then
      p.payloadBuffer.map fun cells => cells.set p.payloadIndex byte else p.payloadBuffer := by
  obtain ⟨_, hp', hfed⟩ := feed_inv hfeed
  cases hp'
  split
  next hs =>
    obtain ⟨cells, hcells, -, hstored⟩ := store_eq_ok.mp (hfed.stored hs)
    rw [hstored, hcells, Option.map_some]
  next hs => exact hfed.kept hs

theorem map_fst_zip {buffer : Option (List UInt8)} {capacity : Nat} {calls : List ParserCall}
    {returns : List ParserReturn}
    (hreach : Reaches P buffer capacity calls returns p) :
    (calls.zip returns).map Prod.fst = calls := by
  obtain ⟨before, hrun⟩ := hreach
  exact List.map_fst_zip (Nat.le_of_eq (run_length hrun).symm)

/-- **The representation invariant** holds of every parser that any calls lead
to, no call makes an access out of bounds, and the buffer changes in no other
way than by the one store of `PAYLOAD`, below the capacity. -/
theorem parser_invariant {buffer : Option (List UInt8)} {capacity : Nat}
    (hbuf : BufferOk buffer capacity) :
    (∀ before calls, ∃ returns p,
      run (ParserCall.exec P) (ubxParserInit (some before) buffer capacity) calls
        = .ok (returns, some p)) ∧
    ∀ calls returns p, Reaches P buffer capacity calls returns p →
      Invariant P buffer capacity calls p ∧
      p.payloadCapacity = capacityOf buffer capacity ∧
      p.payloadBuffer.map (List.drop (capacityOf buffer capacity))
        = buffer.map (List.drop (capacityOf buffer capacity)) ∧
      (∀ byte frame, ∃ out p', ubxParserFeed P (some p) byte frame = .ok (out, some p') ∧
        p'.payloadBuffer = if p.state = .payload then
          p.payloadBuffer.map fun cells => cells.set p.payloadIndex byte else p.payloadBuffer) ∧
      ∃ p', ubxParserReset (some p) = some p' ∧ p'.payloadBuffer = p.payloadBuffer := by
  constructor
  · intro before calls
    obtain ⟨returns, p, hrun, -⟩ := session_good (P := P) hbuf before calls
    exact ⟨returns, p, hrun⟩
  · intro calls returns p hreach
    obtain ⟨start, hg, before, rfl⟩ := hreach.good hbuf
    refine ⟨hg.invariant (map_fst_zip hreach), hg.capacity_eq, hg.beyond, ?_, _, rfl, rfl⟩
    intro byte frame
    obtain ⟨out, p', hfeed, -⟩ := good_feed hg byte frame
    exact ⟨out, p', hfeed, feed_stores hfeed⟩

/-- Two cells, and the parser half-way through a payload. -/
theorem parser_invariant_payload :
    Invariant Platform.size32 (some [0, 0]) 2
      ([0xB5, 0x62, 5, 1, 2, 0, 0x2A].map fun b => .feed b none)
      ⟨.payload, some [0x2A, 0], 2, 1, 5, 1, 2, 0x32, 0x4D, 0, 0⟩ :=
  ((parser_invariant twoCells_ok).2 _ _ _ ⟨zeroParser, rfl⟩).1

/-! ## Reported frames -/

theorem supplies_of_take {buffer : Option (List UInt8)} {data : List UInt8}
    (h : (buffer.getD []).take data.length = data) : Supplies buffer data := by
  intro k hk
  cases buffer with
  | none =>
    rw [← h] at hk
    exact absurd hk (by simp)
  | some cells =>
    have hlen := congrArg List.length h
    rw [Option.getD_some, List.length_take] at hlen
    rw [load_some (by omega)]
    have hget : data[k]? = cells[k]? := by
      rw [← h, Option.getD_some, List.getElem?_take_of_lt hk]
    rw [List.getElem?_eq_getElem hk, List.getElem?_eq_getElem (by omega)] at hget
    exact congrArg Except.ok (Option.some.inj hget).symm

/-- The bytes of the frame that a byte completes are those of its wire form. -/
theorem Rep.complete {pending : List UInt8} (hr : Rep p pending) (hs : p.state = .checksumB)
    (ha : p.receivedChecksumA = p.checksumA) :
    ∃ payload, payload.length ≤ 65535 ∧ p.payloadLength = UInt16.ofNat payload.length ∧
      Supplies p.payloadBuffer payload ∧
      pending ++ [p.checksumB] = frameBytes p.messageClass p.messageId payload := by
  cases hr with
  | checksumB _ hp hh hlen ha' =>
    refine ⟨_, hlen ▸ length_value_le _ _, hlen ▸ hh.length, supplies_of_take hh.buffer, ?_⟩
    rw [frameBytes, frameBody_eq _ _ hlen, hh.class_, hh.id, ← hp.sums, ← ha, ha']
    simp
  | _ hs' =>
    rw [hs'] at hs
    cases hs

/-- No quiet call led to a result. -/
theorem quiet_getElem? {inputs : List (UInt8 × Option UbxFrame)} {k : Nat} {call : ParserCall}
    {ret : ParserReturn} (hk : (quiet inputs)[k]? = some (call, ret)) :
    ∃ frame, ret = .fed .inProgress frame := by
  rw [quiet, List.getElem?_map, Option.map_eq_some_iff] at hk
  obtain ⟨input, -, hinput⟩ := hk
  cases hinput
  exact ⟨_, rfl⟩

/-- The frame that `byte` completes, shown in `out`, is the encoder's: the last
bytes of the calls and `byte` are what `ubx_encode_frame` writes for its class,
id and payload, and every call with another answer than `IN_PROGRESS`, a reset
or an earlier frame, lies before the first of them. -/
def EncodedFrame (P : Platform) (calls : List ParserCall) (returns : List ParserReturn)
    (p : UbxParser) (byte : UInt8) (frame out : Option UbxFrame) : Prop :=
  ∃ (c i : UInt8) (payload : List UInt8) (before : History)
    (inputs : List (UInt8 × Option UbxFrame)),
    out = frame.map (fun _ => ⟨c, i, UInt16.ofNat payload.length, p.payloadBuffer⟩) ∧
    payload.length ≤ 65535 ∧ Supplies p.payloadBuffer payload ∧
    calls.zip returns = before ++ quiet inputs ∧ inputs.length + 1 = payload.length + 8 ∧
    (∀ (source : Option (List UInt8)) (output : List UInt8) (n : Nat), Supplies source payload →
      output.length = payload.length + 8 → output.length < 2 ^ P.sizeBits →
      ubxEncodeFrame P c i source payload.length (some output) (payload.length + 8) (some n)
        = .ok (.ok, some (inputs.map Prod.fst ++ [byte]), some (payload.length + 8))) ∧
    ∀ (k : Nat) (ret : ParserReturn), returns[k]? = some ret →
      (∀ frame, ret ≠ .fed .inProgress frame) → k + (payload.length + 8) ≤ calls.length

/-- **Every reported frame is what the encoder writes**, and no two reported
frames share a byte: a call that answered with an earlier one lies before the
first byte of this one. -/
theorem frame_complete_encoded {buffer : Option (List UInt8)} {capacity : Nat}
    (hbuf : BufferOk buffer capacity) {calls : List ParserCall} {returns : List ParserReturn}
    (hreach : Reaches P buffer capacity calls returns p) {byte : UInt8}
    {frame out : Option UbxFrame} {parser' : Option UbxParser}
    (hfeed : ubxParserFeed P (some p) byte frame = .ok ((.frameComplete, out), parser')) :
    EncodedFrame P calls returns p byte frame out := by
  obtain ⟨start, hg, before, rfl⟩ := hreach.good hbuf
  obtain ⟨_, -, hfed⟩ := feed_inv hfeed
  obtain ⟨hs, ha, rfl, rfl⟩ := hfed.complete rfl
  rcases hg.progress with ⟨pending, hr, ⟨h₀, inputs, hzip, rfl⟩, -⟩ | hs'
  · obtain ⟨payload, hlen, hlength, hsupplies, hbytes⟩ := hr.complete hs ha
    have hcount : inputs.length + 1 = payload.length + 8 := by
      have := congrArg List.length hbytes
      rwa [List.length_append, List.length_map, length_frameBytes] at this
    refine ⟨_, _, payload, h₀, inputs, by rw [hlength], hlen, hsupplies, hzip, hcount, ?_, ?_⟩
    · intro source output n hsource houtput hsize
      rw [ubxEncodeFrame_ok hsource hlen (houtput ▸ hsize) (Nat.le_refl _)
        (Nat.le_of_eq houtput.symm), hbytes, written, length_frameBytes,
        List.drop_eq_nil_of_le (Nat.le_of_eq houtput), List.append_nil]
    · intro k ret hk hloud
      have hreturns : returns.length = calls.length := by
        obtain ⟨before, hrun⟩ := hreach
        exact run_length hrun
      have hklt : k < returns.length := (List.getElem?_eq_some_iff.mp hk).1
      have htotal := congrArg List.length hzip
      rw [List.length_zip, List.length_append, quiet, List.length_map] at htotal
      -- a call behind `h₀` is one of the quiet ones
      rcases Nat.lt_or_ge k h₀.length with hlt | hge
      · omega
      · have hcall : (calls.zip returns)[k]? = some (calls[k], ret) := by
          rw [List.getElem?_zip_eq_some]
          exact ⟨List.getElem?_eq_getElem (by omega), hk⟩
        rw [hzip, List.getElem?_append_right hge] at hcall
        obtain ⟨frame', rfl⟩ := quiet_getElem? hcall
        exact absurd rfl (hloud frame')
  · have hstate := hs'.state
    rw [hs] at hstate
    cases hstate

/-- The one-byte frame again, at the byte that completes it. -/
theorem frame_complete_encoded_byte :
    EncodedFrame Platform.size32
      ([0xB5, 0x62, 5, 1, 1, 0, 0x2A, 0x31].map fun b => .feed b none)
      (List.replicate 8 (.fed .inProgress none))
      ⟨.checksumB, some [0x2A, 0], 2, 1, 5, 1, 1, 0x31, 0x4A, 0x31, 0⟩ 0x4A
      (some ⟨0, 0, 0, none⟩) (some ⟨5, 1, 1, some [0x2A, 0]⟩) :=
  frame_complete_encoded twoCells_ok ⟨zeroParser, rfl⟩ rfl

end Ubx.Stream
