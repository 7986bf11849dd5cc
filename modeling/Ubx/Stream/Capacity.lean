import Ubx.Stream.History
import Mathlib.Data.List.ReduceOption

/-!
# Two parsers on one stream

A frame that does not fit is skipped by its length, to the byte where a parser
with more room would judge its checksum. So the size of the buffer decides which
frames are reported and never where frames are found.

`assemble_narrower` is one byte: two capacities leave the same frame in progress,
and the reports differ only where that frame `Exceeds` the smaller one.
`capacity_selects` is two whole sessions, on platforms, with buffers and with
frames to fill in that need have nothing in common.
-/

namespace Ubx.Stream

open Lib

/-! ## One byte -/

/-- The frame, as far as it was fed, says a length that the capacity does not hold. -/
def Exceeds (capacity : Nat) : List UInt8 → Prop
  | _ :: _ :: _ :: _ :: l1 :: l2 :: _ => capacity < leValue [l1, l2]
  | _ => False

/-- What a parser of this capacity reports on the last byte of `frame` where one
that holds more reports the second. -/
inductive Report.Narrows (capacity : Nat) (frame : List UInt8) : Report → Report → Prop where
  | inProgress : Narrows capacity frame .inProgress .inProgress
  | oversize : Narrows capacity frame .oversize .oversize
  | checksumError : Narrows capacity frame .checksumError .checksumError
  | complete {d : Delivered} : d.payloadLength.toNat ≤ capacity →
      Narrows capacity frame (.frameComplete (some d)) (.frameComplete (some d))
  | refused : Exceeds capacity frame → Narrows capacity frame .oversize .inProgress
  | skipped {d : Delivered} : Exceeds capacity frame → capacity < d.payloadLength.toNat →
      Narrows capacity frame .inProgress (.frameComplete (some d))
  | unjudged : Exceeds capacity frame → Narrows capacity frame .inProgress .checksumError

/-- The frame in progress does not depend on the capacity. -/
theorem assemble_pending (capacity capacity' : Nat) (pending : List UInt8) (byte : UInt8) :
    (assemble capacity pending byte).2 = (assemble capacity' pending byte).2 := by
  unfold assemble
  split
  · rfl
  · rfl
  · rfl
  · split
    · rfl
    · -- the last byte of a frame, judged or swallowed
      rw [apply_ite Prod.snd, apply_ite Prod.snd, ite_self, ite_self]
  · rfl

/-- A verdict is on a frame of the length its header says. -/
theorem judge_cases (c i l1 l2 : UInt8) (tail : List UInt8) :
    judge c i l1 l2 tail = .checksumError ∨
    ∃ d : Delivered, judge c i l1 l2 tail = .frameComplete (some d) ∧
      d.payloadLength.toNat = leValue [l1, l2] := by
  unfold judge
  dsimp only
  split
  · exact Or.inr ⟨_, rfl, length_value l1 l2⟩
  · exact Or.inl rfl

/-- **One byte**: the reports differ only over a frame that the smaller capacity
does not hold. -/
theorem assemble_narrower {capacity capacity' : Nat} (hle : capacity ≤ capacity')
    (pending : List UInt8) (byte : UInt8) :
    Report.Narrows capacity (pending ++ [byte]) (assemble capacity pending byte).1
      (assemble capacity' pending byte).1 := by
  unfold assemble
  split
  · exact .inProgress
  · exact .inProgress
  next a b c i l1 =>
    dsimp only
    by_cases hover : capacity' < leValue [l1, byte]
    · rw [if_pos hover, if_pos (by omega)]
      exact .oversize
    · rw [if_neg hover]
      split
      next hskip => exact .refused hskip
      next => exact .inProgress
  next a b c i l1 l2 tail =>
    split
    · exact .inProgress
    · rcases judge_cases c i l1 l2 (tail ++ [byte]) with herror | ⟨d, hd, hlength⟩
      · rw [herror]
        by_cases hover : capacity' < leValue [l1, l2]
        · rw [if_pos hover, if_pos (by omega)]
          exact .inProgress
        · rw [if_neg hover]
          split
          next hskip => exact .unjudged hskip
          next => exact .checksumError
      · rw [hd]
        by_cases hover : capacity' < leValue [l1, l2]
        · rw [if_pos hover, if_pos (by omega)]
          exact .inProgress
        · rw [if_neg hover]
          split
          next hskip => exact .skipped hskip (hlength ▸ hskip)
          next hfits => exact .complete (hlength ▸ Nat.le_of_not_lt hfits)
  · exact .inProgress

/-! ## States -/

/-- The state of a parser with this frame in progress. -/
def stateOf (capacity : Nat) : List UInt8 → UbxParserState
  | [] => .sync1
  | [_] => .sync2
  | [_, _] => .class_
  | [_, _, _] => .id
  | [_, _, _, _] => .length1
  | [_, _, _, _, _] => .length2
  | _ :: _ :: _ :: _ :: l1 :: l2 :: tail =>
    if capacity < leValue [l1, l2] then .discard
    else if tail.length < leValue [l1, l2] then .payload
    else if tail.length = leValue [l1, l2] then .checksumA
    else .checksumB

/-- Behind the header the capacity decides. -/
theorem stateOf_header (capacity : Nat) (a b c i l1 l2 : UInt8) (tail : List UInt8) :
    stateOf capacity (a :: b :: c :: i :: l1 :: l2 :: tail) =
      if capacity < leValue [l1, l2] then .discard
      else if tail.length < leValue [l1, l2] then .payload
      else if tail.length = leValue [l1, l2] then .checksumA
      else .checksumB := rfl

theorem Rep.state_eq {p : UbxParser} {pending : List UInt8} (hr : Rep p pending) :
    p.state = stateOf p.payloadCapacity pending := by
  cases hr with
  | payload hs _ hh hlt =>
    have hfits := hh.fits
    rw [hs, stateOf_header, if_neg (by omega), if_pos hlt]
  | checksumA hs _ hh hlen =>
    have hfits := hh.fits
    rw [hs, stateOf_header, if_neg (by omega), if_neg (by omega), if_pos hlen]
  | checksumB hs _ hh hlen =>
    have hfits := hh.fits
    rw [hs, stateOf_header, List.length_append, List.length_singleton, if_neg (by omega),
      if_neg (by omega), if_neg (by omega)]
  | discard hs _ hover => rw [hs, stateOf_header, if_pos hover]
  | _ hs => exact hs

/-- Two capacities agree on the state, but for a frame that the smaller one does
not hold. -/
theorem stateOf_narrower {capacity capacity' : Nat} (hle : capacity ≤ capacity')
    (pending : List UInt8) :
    stateOf capacity' pending = stateOf capacity pending ∨
    stateOf capacity pending = .discard ∧
      (stateOf capacity' pending = .payload ∨ stateOf capacity' pending = .checksumA ∨
        stateOf capacity' pending = .checksumB) := by
  match pending with
  | [] | [_] | [_, _] | [_, _, _] | [_, _, _, _] | [_, _, _, _, _] => exact Or.inl rfl
  | a :: b :: c :: i :: l1 :: l2 :: tail =>
    rw [stateOf_header, stateOf_header]
    by_cases hover : capacity' < leValue [l1, l2]
    · rw [if_pos hover, if_pos (by omega)]
      exact Or.inl rfl
    · rw [if_neg hover]
      by_cases hskip : capacity < leValue [l1, l2]
      · rw [if_pos hskip]
        refine Or.inr ⟨rfl, ?_⟩
        split
        · exact Or.inl rfl
        · split
          · exact Or.inr (Or.inl rfl)
          · exact Or.inr (Or.inr rfl)
      · rw [if_neg hskip]
        exact Or.inl rfl

/-! ## Sessions -/

/-- The byte of a call; a reset has none. -/
def ParserCall.byte : ParserCall → Option UInt8
  | .feed byte _ => some byte
  | .reset => none

/-- The call gives a frame to fill in, where it can. -/
def ParserCall.Watched : ParserCall → Prop
  | .feed _ frame => frame.isSome
  | .reset => True

def ParserReturn.code : ParserReturn → Option UbxParseResult
  | .fed result _ => some result
  | .wasReset => none

def ParserReturn.report : ParserReturn → Option Report
  | .fed result frame => some (observe (result, frame))
  | .wasReset => none

/-- What a call returned tells of the report: the code always, all of it where
there is a frame to fill in. -/
def Tells (call : ParserCall × ParserReturn) (report : Option Report) : Prop :=
  call.2.code = report.map Report.code ∧ (call.1.Watched → call.2.report = report)

/-- The assembler in a session: a reset drops the frame in progress. -/
def assembleCall (capacity : Nat) (pending : List UInt8) :
    Option UInt8 → Option Report × List UInt8
  | some byte => (some (assemble capacity pending byte).1, (assemble capacity pending byte).2)
  | none => (none, [])

/-- What the two reports on a call have to do with each other, where the call finds
this frame in progress. -/
def Selects (capacity : Nat) (call : List UInt8 × Option UInt8)
    (reports : Option Report × Option Report) : Prop :=
  Option.Rel (Report.Narrows capacity (call.1 ++ call.2.toList)) reports.1 reports.2

variable {P P' : Platform} {p p' : UbxParser}

/-- One call follows the assembler. -/
theorem call_step (hP : 17 ≤ P.sizeBits) {capacity : Nat} {parser : Option UbxParser}
    {pending : List UInt8} (call : ParserCall) (h : Stands capacity parser pending) :
    ∃ ret parser', call.exec P parser = .ok (ret, parser') ∧
      Tells (call, ret) (assembleCall capacity pending call.byte).1 ∧
      Stands capacity parser' (assembleCall capacity pending call.byte).2 := by
  obtain ⟨p, rfl, hr, hb, rfl⟩ := h
  cases call with
  | feed byte frame =>
    obtain ⟨out, p', hfeed, hout, hr', hb', hcap⟩ := feed_step hP hb hr byte frame
    have hshows : Shows ((byte, frame), out) _ := hout.shows
    refine ⟨_, _, exec_feed hfeed, ⟨congrArg some hshows.1, fun hwatched => ?_⟩, p', rfl, hr',
      hb', hcap⟩
    exact congrArg some (hshows.2 hwatched)
  | reset =>
    exact ⟨_, _, rfl, ⟨rfl, fun _ => rfl⟩, p.reset, rfl, Rep.reset p, hb.reset, rfl⟩

/-- **Every session follows the assembler.** -/
theorem session_tells (hP : 17 ≤ P.sizeBits) {buffer : Option (List UInt8)} {capacity : Nat}
    (hbuf : BufferOk buffer capacity) {calls : List ParserCall} {returns : List ParserReturn}
    (hreach : Reaches P buffer capacity calls returns p) :
    List.Forall₂ Tells (calls.zip returns)
        (trace (assembleCall (capacityOf buffer capacity)) [] (calls.map ParserCall.byte)).1 ∧
      Rep p (trace (assembleCall (capacityOf buffer capacity)) []
        (calls.map ParserCall.byte)).2 ∧
      p.payloadCapacity = capacityOf buffer capacity := by
  obtain ⟨before, hrun⟩ := hreach
  obtain ⟨p₀, hinit, hg⟩ := good_init (P := P) hbuf before
  rw [hinit] at hrun
  have hstart : Stands (capacityOf buffer capacity) (some p₀) [] := by
    cases hinit
    exact ⟨_, rfl, .sync1 rfl, hg.buffer, rfl⟩
  obtain ⟨returns', parser, hrun', htells, q, rfl, hr, -, hcap⟩ :=
    run_simulates (fun _ => True) (fun _ _ call _ h => call_step hP call h) calls (some p₀) []
      (fun _ _ => trivial) hstart
  cases hrun.symm.trans hrun'
  exact ⟨htells, hr, hcap⟩

/-- Two capacities on one list of calls. -/
theorem calls_narrower {capacity capacity' : Nat} (hle : capacity ≤ capacity')
    (bytes : List (Option UInt8)) (pending : List UInt8) :
    List.Forall₂ (Selects capacity) (visited (assembleCall capacity) pending bytes)
        ((trace (assembleCall capacity) pending bytes).1.zip
          (trace (assembleCall capacity') pending bytes).1) ∧
      (trace (assembleCall capacity) pending bytes).2
        = (trace (assembleCall capacity') pending bytes).2 := by
  apply trace_lockstep
  · intro pending byte
    cases byte with
    | none => rfl
    | some byte => exact assemble_pending capacity capacity' pending byte
  · intro pending byte
    cases byte with
    | none => exact .none
    | some byte => exact .some (assemble_narrower hle pending byte)

/-- What the smaller capacity shows on one byte is what the larger one shows, if it fits. -/
theorem Report.Narrows.shown_eq {capacity : Nat} {frame : List UInt8} {report report' : Report}
    (h : Report.Narrows capacity frame report report') :
    report.shown = report'.shown.filter fun d => d.payloadLength.toNat ≤ capacity := by
  cases h with
  | complete hfits => exact (if_pos (decide_eq_true hfits)).symm
  | @skipped d _ hskip =>
    have hexceeds : ¬ decide (d.payloadLength.toNat ≤ capacity) = true := by
      rw [decide_eq_true_iff]
      exact Nat.not_le.mpr hskip
    exact (if_neg hexceeds).symm
  | _ => rfl

/-- The frames that the smaller capacity shows are those of the larger that it holds. -/
theorem shownFrames_narrower {capacity : Nat} :
    ∀ {reports reports' : List (Option Report)} {calls : List (List UInt8 × Option UInt8)},
      reports.length = reports'.length →
      List.Forall₂ (Selects capacity) calls (reports.zip reports') →
      shownFrames reports.reduceOption
        = (shownFrames reports'.reduceOption).filter fun d => d.payloadLength.toNat ≤ capacity := by
  intro reports
  induction reports with
  | nil =>
    intro reports' calls hlen _
    rw [List.eq_nil_of_length_eq_zero hlen.symm]
    rfl
  | cons report reports ih =>
    intro reports' calls hlen h
    cases reports' with
    | nil => cases hlen
    | cons report' reports' =>
      cases h with
      | cons hhead htail =>
        have hrest := ih (Nat.succ.inj hlen) htail
        unfold shownFrames at hrest ⊢
        unfold Selects at hhead
        rw [List.filter_filterMap] at hrest ⊢
        cases hhead with
        | none => exact hrest
        | some hreport =>
          rw [List.reduceOption_cons_of_some, List.reduceOption_cons_of_some,
            List.filterMap_cons, List.filterMap_cons, hreport.shown_eq, hrest]

/-- The returned values are the reports, where every feed is watched. -/
theorem returns_told {calls : List ParserCall} {returns : List ParserReturn}
    {reports : List (Option Report)} (hlen : returns.length = calls.length)
    (htells : List.Forall₂ Tells (calls.zip returns) reports)
    (hwatched : ∀ call ∈ calls, call.Watched) : returns.map ParserReturn.report = reports := by
  have hmap := map_eq_of_answers hlen (f := ParserReturn.report) (g := id)
    (fun call hcall _ _ htold => htold.2 (hwatched call hcall)) htells
  rwa [List.map_id] at hmap

theorem codes_told {calls : List ParserCall} {returns : List ParserReturn}
    {reports : List (Option Report)} (hlen : returns.length = calls.length)
    (htells : List.Forall₂ Tells (calls.zip returns) reports) :
    returns.map ParserReturn.code = reports.map (Option.map Report.code) :=
  map_eq_of_answers hlen (fun _ _ _ _ htold => htold.1) htells

theorem Reaches.length_eq {buffer : Option (List UInt8)} {capacity : Nat}
    {calls : List ParserCall} {returns : List ParserReturn}
    (hreach : Reaches P buffer capacity calls returns p) : returns.length = calls.length := by
  obtain ⟨_, hrun⟩ := hreach
  exact run_length hrun

/-- **The capacity selects.** Of two sessions with the same bytes and the same
resets, the parser that holds less is in the same state, or skips a frame that
the other one takes in; it reports on every byte what the other one does, but
for the frames it does not hold; so the frames it shows are those of the other
one that it holds, in their order. With equal capacities the results are equal,
whatever the buffers held, the frames to fill in and the width of `size_t`. -/
theorem capacity_selects (hP : 17 ≤ P.sizeBits) (hP' : 17 ≤ P'.sizeBits)
    {buffer buffer' : Option (List UInt8)} {capacity capacity' : Nat}
    (hbuf : BufferOk buffer capacity) (hbuf' : BufferOk buffer' capacity')
    {calls calls' : List ParserCall} {returns returns' : List ParserReturn}
    (hreach : Reaches P buffer capacity calls returns p)
    (hreach' : Reaches P' buffer' capacity' calls' returns' p')
    (hsame : calls.map ParserCall.byte = calls'.map ParserCall.byte)
    (hle : capacityOf buffer capacity ≤ capacityOf buffer' capacity') :
    (p'.state = p.state ∨ p.state = .discard ∧
      (p'.state = .payload ∨ p'.state = .checksumA ∨ p'.state = .checksumB)) ∧
    (∃ reports reports', List.Forall₂ Tells (calls.zip returns) reports ∧
      List.Forall₂ Tells (calls'.zip returns') reports' ∧
      List.Forall₂ (Selects (capacityOf buffer capacity))
        (visited (assembleCall (capacityOf buffer capacity)) [] (calls.map ParserCall.byte))
        (reports.zip reports')) ∧
    ((∀ call ∈ calls, call.Watched) → (∀ call ∈ calls', call.Watched) →
      shownFrames (returns.filterMap ParserReturn.report)
        = (shownFrames (returns'.filterMap ParserReturn.report)).filter
            fun d => d.payloadLength.toNat ≤ capacityOf buffer capacity) ∧
    (capacityOf buffer capacity = capacityOf buffer' capacity' →
      returns.map ParserReturn.code = returns'.map ParserReturn.code) := by
  obtain ⟨htells, hr, hcap⟩ := session_tells hP hbuf hreach
  obtain ⟨htells', hr', hcap'⟩ := session_tells hP' hbuf' hreach'
  obtain ⟨hnarrows, hpending⟩ := calls_narrower hle (calls.map ParserCall.byte) []
  rw [← hsame] at htells' hr'
  refine ⟨?_, ⟨_, _, htells, htells', hnarrows⟩, fun hwatched hwatched' => ?_, fun heq => ?_⟩
  · rw [hr.state_eq, hr'.state_eq, hcap, hcap', ← hpending]
    exact stateOf_narrower hle _
  · have hshown := shownFrames_narrower (by rw [length_trace, length_trace]) hnarrows
    rw [← returns_told hreach.length_eq htells hwatched,
      ← returns_told hreach'.length_eq htells' hwatched'] at hshown
    unfold List.reduceOption at hshown
    rwa [List.filterMap_map, List.filterMap_map] at hshown
  · rw [codes_told hreach.length_eq htells, codes_told hreach'.length_eq htells', heq]

/-- A frame of one byte, for a parser without a buffer and for one with two cells. -/
theorem capacity_selects_none :
    ∃ returns returns' p p',
      Reaches Platform.size32 none 9
        ([0xB5, 0x62, 5, 1, 1, 0, 0x2A, 0x31, 0x4A].map fun b => .feed b (some ⟨0, 0, 0, none⟩))
        returns p ∧
      Reaches Platform.size32 (some [0, 0]) 2
        ([0xB5, 0x62, 5, 1, 1, 0, 0x2A, 0x31, 0x4A].map fun b => .feed b (some ⟨9, 9, 9, none⟩))
        returns' p' ∧
      shownFrames (returns.filterMap ParserReturn.report)
        = (shownFrames (returns'.filterMap ParserReturn.report)).filter
            fun d => d.payloadLength.toNat ≤ 0 := by
  have hsmall : Reaches Platform.size32 none 9
      ([0xB5, 0x62, 5, 1, 1, 0, 0x2A, 0x31, 0x4A].map fun b => .feed b (some ⟨0, 0, 0, none⟩))
      _ _ := ⟨zeroParser, rfl⟩
  have hlarge : Reaches Platform.size32 (some [0, 0]) 2
      ([0xB5, 0x62, 5, 1, 1, 0, 0x2A, 0x31, 0x4A].map fun b => .feed b (some ⟨9, 9, 9, none⟩))
      _ _ := ⟨zeroParser, rfl⟩
  have hwide : 17 ≤ Platform.size32.sizeBits := by simp [Platform.size32]
  have hnull : BufferOk none 9 := by
    intro cells hcells
    cases hcells
  obtain ⟨-, -, hframes, -⟩ :=
    capacity_selects hwide hwide hnull twoCells_ok hsmall hlarge rfl (Nat.zero_le 2)
  refine ⟨_, _, _, _, hsmall, hlarge, hframes ?_ ?_⟩
  · intro call hcall
    obtain ⟨byte, -, rfl⟩ := List.mem_map.mp hcall
    rfl
  · intro call hcall
    obtain ⟨byte, -, rfl⟩ := List.mem_map.mp hcall
    rfl

end Ubx.Stream
