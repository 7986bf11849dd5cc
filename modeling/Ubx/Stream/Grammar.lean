import Ubx.Lib.Words
import Ubx.Stream.Frames

/-!
# The grammar of the wire

A stream is read as pieces: a frame, and in front of it the bytes dropped while
hunting for it. Nothing is asked of the frame but that it has the length it
says; whether its checksum is right, and whether anybody holds a buffer for it,
is a matter of what is reported. Behind the last frame an open rest is left,
with no sync pair or with a frame that is not all there.

Pieces are self-delimiting (`pieces_delimited`), so every byte list whatsoever
is read in exactly one way, and `reports_of_parse` says that this is how the
parser reads it, byte by byte.
-/

namespace Ubx.Stream

open Lib

variable {P : Platform} {p : UbxParser}

/-! ## Pieces -/

/-- A frame, of the length it says, and the bytes dropped in front of it; the
frame's sync pair is the first there is. -/
structure Piece where
  dropped : List UInt8
  messageClass : UInt8
  messageId : UInt8
  length1 : UInt8
  length2 : UInt8
  /-- payload and checksum -/
  tail : List UInt8
  no_sync : findSync (dropped ++ [0xB5]) = none
  tail_length : tail.length = leValue [length1, length2] + 2

namespace Piece

/-- The payload length its header says. -/
def payloadLength (w : Piece) : Nat := leValue [w.length1, w.length2]

def bytes (w : Piece) : List UInt8 :=
  w.dropped ++ 0xB5 :: 0x62 :: w.messageClass :: w.messageId :: w.length1 :: w.length2 :: w.tail

/-- What is reported at its last byte but for a frame too large. -/
def verdict (capacity : Nat) (w : Piece) : Report :=
  lastReport capacity w.messageClass w.messageId w.length1 w.length2 w.tail

/-- What is reported on its bytes, one by one. -/
def reports (capacity : Nat) (w : Piece) : List Report :=
  List.replicate (w.dropped.length + 5) .inProgress
    ++ headerReport capacity w.payloadLength
      :: (List.replicate (w.payloadLength + 1) .inProgress ++ [w.verdict capacity])

end Piece

/-- What is reported on an open rest: a frame that does not fit is known for one
when its header is there. -/
def openReports (capacity : Nat) (rest : List UInt8) : List Report :=
  match findSync rest with
  | none => List.replicate rest.length .inProgress
  | some k =>
    match rest.drop (k + 2) with
    | _ :: _ :: l1 :: l2 :: tail =>
      List.replicate (k + 5) .inProgress
        ++ headerReport capacity (leValue [l1, l2]) :: List.replicate tail.length .inProgress
    | _ => List.replicate rest.length .inProgress

/-! ## They delimit themselves -/

theorem head_dropped (dropped rest : List UInt8) :
    (dropped ++ 0xB5 :: rest).head? = (dropped ++ [0xB5]).head? := by
  cases dropped with
  | nil => rfl
  | cons _ _ => rfl

/-- Where the first sync pair is. -/
theorem findSync_dropped :
    ∀ {dropped : List UInt8}, findSync (dropped ++ [0xB5]) = none → ∀ rest : List UInt8,
      findSync (dropped ++ 0xB5 :: 0x62 :: rest) = some dropped.length := by
  intro dropped
  induction dropped with
  | nil =>
    intro _ rest
    rw [List.nil_append, findSync_cons, if_pos ⟨rfl, rfl⟩]
    rfl
  | cons b bs ih =>
    intro hnone rest
    rw [List.cons_append, findSync_cons] at hnone ⊢
    rw [head_dropped]
    split at hnone
    next => cases hnone
    next hb =>
      rw [if_neg hb, ih (Option.map_eq_none_iff.mp hnone) rest]
      rfl

/-- What the first sync pair says of a list. -/
theorem findSync_some :
    ∀ {bytes : List UInt8} {k : Nat}, findSync bytes = some k →
      ∃ dropped rest, bytes = dropped ++ 0xB5 :: 0x62 :: rest ∧ dropped.length = k ∧
        findSync (dropped ++ [0xB5]) = none := by
  intro bs
  induction bs with
  | nil =>
    intro k hk
    cases hk
  | cons b bs ih =>
    intro k hk
    rw [findSync_cons] at hk
    split at hk
    next hb =>
      obtain ⟨rfl, hhead⟩ := hb
      cases hk
      obtain ⟨rest, rfl⟩ := List.head?_eq_some_iff.mp hhead
      exact ⟨[], rest, rfl, rfl, rfl⟩
    next hb =>
      obtain ⟨k', hk', rfl⟩ := Option.map_eq_some_iff.mp hk
      obtain ⟨dropped, rest, rfl, rfl, hnone⟩ := ih hk'
      rw [head_dropped] at hb
      refine ⟨b :: dropped, rest, rfl, rfl, ?_⟩
      rw [List.cons_append, findSync_cons, if_neg hb, hnone]
      rfl

theorem Piece.findSync_bytes (w : Piece) (rest : List UInt8) :
    findSync (w.bytes ++ rest) = some w.dropped.length := by
  rw [Piece.bytes, List.append_assoc]
  exact findSync_dropped w.no_sync _

/-- **What follows a piece leaves no doubt which one it was.** -/
theorem pieces_delimited : SelfDelimiting Piece.bytes where
  spell_ne w := by
    simp [Piece.bytes]
  word_eq := by
    intro w w' rest rest' heq
    -- both sync pairs are the first one, and the lengths are read behind it
    have hsync := w.findSync_bytes rest
    rw [heq, w'.findSync_bytes] at hsync
    have hdropped : w'.dropped.length = w.dropped.length := Option.some.inj hsync
    rw [Piece.bytes, Piece.bytes, List.append_assoc, List.append_assoc] at heq
    obtain ⟨hd, hframe⟩ := List.append_inj heq hdropped.symm
    simp only [List.cons_append, List.cons.injEq] at hframe
    obtain ⟨-, -, hc, hi, hl1, hl2, htail⟩ := hframe
    have hlength : w.tail.length = w'.tail.length := by
      rw [w.tail_length, w'.tail_length, hl1, hl2]
    obtain ⟨ht, -⟩ := List.append_inj htail hlength
    cases w
    cases w'
    simp only [Piece.mk.injEq]
    exact ⟨hd, hc, hi, hl1, hl2, ht⟩

/-! ## What is reported on them -/

/-- The assembler over a piece. -/
theorem assembleAll_piece (capacity : Nat) (w : Piece) :
    assembleAll capacity [] w.bytes = (w.reports capacity, []) := by
  have hfind := w.findSync_bytes []
  rw [List.append_nil] at hfind
  obtain ⟨-, -, hhunt⟩ := assembleAll_hunt_some capacity w.bytes [] _ (Or.inl rfl) hfind
  have hdrop : w.bytes.drop (w.dropped.length + 2)
      = w.messageClass :: w.messageId :: w.length1 :: w.length2 :: w.tail := by
    rw [Piece.bytes, List.drop_length_add_append]
    rfl
  rw [List.nil_append, List.length_nil, Nat.sub_zero, hdrop, assembleAll_header,
    assembleAll_frame _ _ _ _ _ (Nat.le_of_eq w.tail_length.symm), ← w.tail_length,
    List.take_length, List.drop_length] at hhunt
  rw [hhunt, Piece.reports, Piece.verdict, Piece.payloadLength, replicate_append_cons,
    replicate_append_cons, replicate_append_cons]
  rfl

/-- The assembler over pieces. -/
theorem assembleAll_pieces (capacity : Nat) (ws : List Piece) (rest : List UInt8) :
    (assembleAll capacity [] (ws.flatMap Piece.bytes ++ rest)).1
      = ws.flatMap (Piece.reports capacity) ++ (assembleAll capacity [] rest).1 := by
  induction ws with
  | nil => rfl
  | cons w ws ih =>
    rw [List.flatMap_cons, List.append_assoc, assembleAll_append, assembleAll_piece, ih,
      List.flatMap_cons, List.append_assoc]

/-- A list that starts with no piece has fewer bytes behind its header than the
header asks for. -/
theorem open_short {rest : List UInt8} (hfree : WordFree Piece.bytes rest) {k : Nat}
    (hfind : findSync rest = some k) {c i l1 l2 : UInt8} {tail : List UInt8}
    (hdrop : rest.drop (k + 2) = c :: i :: l1 :: l2 :: tail) :
    tail.length < leValue [l1, l2] + 2 := by
  obtain ⟨dropped, behind, rfl, rfl, hnone⟩ := findSync_some hfind
  rw [List.drop_length_add_append] at hdrop
  obtain rfl : behind = c :: i :: l1 :: l2 :: tail := hdrop
  by_contra hlong
  have htail : (tail.take (leValue [l1, l2] + 2)).length = leValue [l1, l2] + 2 := by
    rw [List.length_take]
    omega
  refine hfree ⟨dropped, c, i, l1, l2, tail.take (leValue [l1, l2] + 2), hnone, htail⟩
    (tail.drop (leValue [l1, l2] + 2)) ?_
  rw [Piece.bytes, List.append_assoc]
  simp only [List.cons_append, List.take_append_drop]

/-- The assembler over an open rest. -/
theorem assembleAll_open (capacity : Nat) {rest : List UInt8}
    (hfree : WordFree Piece.bytes rest) :
    (assembleAll capacity [] rest).1 = openReports capacity rest := by
  unfold openReports
  cases hfind : findSync rest with
  | none => exact (assembleAll_hunt_none capacity rest [] (Or.inl rfl) hfind).1
  | some k =>
    obtain ⟨-, hlen, hhunt⟩ := assembleAll_hunt_some capacity rest [] k (Or.inl rfl) hfind
    simp only [List.nil_append, List.length_nil, Nat.sub_zero] at hlen hhunt
    rw [hhunt]
    dsimp only
    have hdroplen : (rest.drop (k + 2)).length = rest.length - (k + 2) := List.length_drop
    split
    next c i l1 l2 tail hdrop =>
      have hshort := open_short hfree hfind hdrop
      have htail := assembleAll_tail capacity c i l1 l2 tail [] (by rw [List.length_nil]; omega)
      rw [hdrop, assembleAll_header, htail, replicate_append_cons, replicate_append_cons,
        replicate_append_cons]
    next hdrop =>
      have hshort : (rest.drop (k + 2)).length < 4 := by
        match hb : rest.drop (k + 2) with
        | [] => simp
        | [_] => simp
        | [_, _] => simp
        | [_, _, _] => simp
        | c :: i :: l1 :: l2 :: tail => exact absurd hb (hdrop c i l1 l2 tail)
      rw [assembleAll_short_header capacity hshort, List.replicate_append_replicate]
      congr 1
      omega

/-- **The parser reads the grammar.** A byte list is read in exactly one way as
pieces and an open rest; a parser that hunts reports on it what this parse says,
and nothing else. -/
theorem reports_of_parse (hP : 17 ≤ P.sizeBits) (hb : BufferInv p) (hs : p.state = .sync1)
    (inputs : List (UInt8 × Option UbxFrame)) :
    ∃ parse, IsParse Piece.bytes (inputs.map Prod.fst) parse ∧
      (∀ parse', IsParse Piece.bytes (inputs.map Prod.fst) parse' → parse' = parse) ∧
      ∃ outs p', run (feedStep P) (some p) inputs = .ok (outs, some p') ∧
        ShowAll inputs outs (parse.1.flatMap (Piece.reports p.payloadCapacity)
          ++ openReports p.payloadCapacity parse.2) := by
  obtain ⟨parse, hparse, hunique⟩ := parse_existsUnique pieces_delimited (inputs.map Prod.fst)
  obtain ⟨outs, p', hrun, hshow, -⟩ := run_follows hP hb (.sync1 hs) inputs
  rw [hparse.1, assembleAll_pieces, assembleAll_open _ hparse.2] at hshow
  exact ⟨parse, hparse, hunique, outs, p', hrun, hshow⟩

/-- A frame behind a stray sync byte, and the start of another. -/
theorem reports_of_parse_stray :
    ∃ parse, IsParse Piece.bytes (0xB5 :: frameBytes 5 1 [0x2A] ++ [0xB5, 0x62]) parse ∧
      ∃ outs p', run (feedStep Platform.size32) (some zeroParser)
          (feeds (0xB5 :: frameBytes 5 1 [0x2A] ++ [0xB5, 0x62]) none) = .ok (outs, some p') ∧
        outs.map Prod.fst
          = (parse.1.flatMap (Piece.reports 2) ++ openReports 2 parse.2).map Report.code := by
  obtain ⟨parse, hparse, -, outs, p', hrun, hcodes, -⟩ :=
    reports_of_parse (P := Platform.size32) (by decide) zeroParser_buffer rfl
      (feeds (0xB5 :: frameBytes 5 1 [0x2A] ++ [0xB5, 0x62]) none)
  rw [map_fst_feeds] at hparse
  exact ⟨parse, hparse, outs, p', hrun, hcodes⟩

end Ubx.Stream
