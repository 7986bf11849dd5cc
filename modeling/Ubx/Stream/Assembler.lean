import Mathlib.Data.UInt
import Ubx.Lib.Machine
import Ubx.Lib.Fletcher
import Ubx.Lib.LittleEndian

/-!
# What the parser is for: the frame assembler and the stream scanner

Two statements of the parser's purpose, neither taken from its code.

`scan` reads a whole byte list: find the first sync pair, read the header
behind it, report the frame where it ends, go on behind it. It is the grammar
of the stream.

`assemble` takes one byte at a time. Its state is the list of bytes of the
frame in progress, from its sync byte on, empty while hunting, so that nothing
the parser keeps in counters has to be guessed here. `assemble_eq_scan` says
that the two agree on every byte list.

The parser's ten states are later shown to follow `assemble` byte by byte.
-/

namespace Ubx.Stream

open Lib

/-- What a completed frame shows. -/
structure Delivered where
  messageClass : UInt8
  messageId : UInt8
  payloadLength : UInt16
  payload : List UInt8
  deriving DecidableEq, Repr

/-- What a fed byte leads to. A completed frame shows nothing to a caller that
gave no frame to fill in. -/
inductive Report where
  | inProgress
  | frameComplete (delivered : Option Delivered)
  | checksumError
  | oversize
  deriving DecidableEq, Repr

/-- The frame that a report shows. -/
def Report.shown : Report → Option Delivered
  | .frameComplete delivered => delivered
  | _ => none

/-- The frames that reports show, in order. -/
def shownFrames (reports : List Report) : List Delivered := reports.filterMap Report.shown

/-- The verdict on a frame of payload length `length` whose payload and checksum are `tail`. -/
def judge (c i l1 l2 : UInt8) (tail : List UInt8) : Report :=
  let length := leValue [l1, l2]
  let sums := Fletcher.sums ([c, i, l1, l2] ++ tail.take length)
  if tail.drop length = [sums.1, sums.2] then
    .frameComplete (some ⟨c, i, UInt16.ofNat length, tail.take length⟩)
  else .checksumError

/-! ## The scanner -/

/-- The least `k` with byte `k` = `B5` and byte `k + 1` = `62`. -/
def findSync (bytes : List UInt8) : Option Nat :=
  (List.range bytes.length).find? fun k =>
    bytes[k]? = some 0xB5 ∧ bytes[k + 1]? = some 0x62

/-- The reports on a whole byte list, one a byte. -/
def scan (capacity : Nat) (bytes : List UInt8) : List Report :=
  match findSync bytes with
  | none => List.replicate bytes.length .inProgress
  | some k =>
    match h : bytes.drop (k + 2) with
    | c :: i :: l1 :: l2 :: rest =>
      let length := leValue [l1, l2]
      if capacity < length then
        List.replicate (k + 5) .inProgress ++ .oversize
          :: List.replicate (min (length + 2) rest.length) .inProgress
          ++ scan capacity (rest.drop (length + 2))
      else if rest.length < length + 2 then List.replicate bytes.length .inProgress
      else
        List.replicate (k + 7 + length) .inProgress
          ++ judge c i l1 l2 (rest.take (length + 2)) :: scan capacity (rest.drop (length + 2))
    | _ => List.replicate bytes.length .inProgress
  termination_by bytes.length
  decreasing_by
    all_goals
      have := congrArg List.length h
      simp only [List.length_drop, List.length_cons] at this ⊢
      omega

/-! ## The assembler -/

/-- One byte. The state is the frame in progress from its sync byte on. -/
def assemble (capacity : Nat) (pending : List UInt8) (byte : UInt8) : Report × List UInt8 :=
  match pending with
  | [] => (.inProgress, if byte = 0xB5 then [0xB5] else [])
  | [_] =>
    (.inProgress, if byte = 0x62 then pending ++ [byte] else if byte = 0xB5 then [0xB5] else [])
  | [_, _, _, _, l1] =>
    (if capacity < leValue [l1, byte] then .oversize else .inProgress, pending ++ [byte])
  | _ :: _ :: c :: i :: l1 :: l2 :: tail =>
    if tail.length + 1 < leValue [l1, l2] + 2 then (.inProgress, pending ++ [byte])
    else if capacity < leValue [l1, l2] then (.inProgress, [])
    else (judge c i l1 l2 (tail ++ [byte]), [])
  | _ => (.inProgress, pending ++ [byte])

/-- The assembler over a byte list. -/
def assembleAll (capacity : Nat) (pending bytes : List UInt8) : List Report × List UInt8 :=
  trace (assemble capacity) pending bytes

theorem assembleAll_cons (capacity : Nat) (pending : List UInt8) (b : UInt8) (bs : List UInt8) :
    assembleAll capacity pending (b :: bs) =
      ((assemble capacity pending b).1
          :: (assembleAll capacity (assemble capacity pending b).2 bs).1,
        (assembleAll capacity (assemble capacity pending b).2 bs).2) := rfl

theorem assembleAll_append (capacity : Nat) (pending bs bs' : List UInt8) :
    assembleAll capacity pending (bs ++ bs') =
      ((assembleAll capacity pending bs).1
          ++ (assembleAll capacity (assembleAll capacity pending bs).2 bs').1,
        (assembleAll capacity (assembleAll capacity pending bs).2 bs').2) :=
  trace_append _ bs bs' pending

/-- The frame in progress grows, starts again at a first sync byte, or is over. -/
theorem assemble_next (capacity : Nat) (pending : List UInt8) (byte : UInt8) :
    (assemble capacity pending byte).2 = [] ∨
    ((assemble capacity pending byte).1 = .inProgress ∨
        (assemble capacity pending byte).1 = .oversize) ∧
      ((assemble capacity pending byte).2 = pending ++ [byte] ∨
        byte = 0xB5 ∧ (assemble capacity pending byte).2 = [0xB5]) := by
  unfold assemble
  split
  next =>
    split
    next hb => exact Or.inr ⟨Or.inl rfl, Or.inr ⟨hb, rfl⟩⟩
    next => exact Or.inl rfl
  next =>
    split
    next => exact Or.inr ⟨Or.inl rfl, Or.inl rfl⟩
    next =>
      split
      next hb => exact Or.inr ⟨Or.inl rfl, Or.inr ⟨hb, rfl⟩⟩
      next => exact Or.inl rfl
  next =>
    split
    next => exact Or.inr ⟨Or.inr rfl, Or.inl rfl⟩
    next => exact Or.inr ⟨Or.inl rfl, Or.inl rfl⟩
  next =>
    split
    next => exact Or.inr ⟨Or.inl rfl, Or.inl rfl⟩
    next =>
      split
      next => exact Or.inl rfl
      next => exact Or.inl rfl
  next => exact Or.inr ⟨Or.inl rfl, Or.inl rfl⟩

/-- Only the last byte of a header reports a frame that does not fit. -/
theorem assemble_oversize {capacity : Nat} {pending : List UInt8} {byte : UInt8}
    (hreport : (assemble capacity pending byte).1 = .oversize) :
    ∃ a b c i l1, pending = [a, b, c, i, l1] ∧ capacity < leValue [l1, byte] := by
  unfold assemble at hreport
  split at hreport
  next => exact nomatch hreport
  next => exact nomatch hreport
  next a b c i l1 =>
    refine ⟨a, b, c, i, l1, rfl, ?_⟩
    by_contra hfit
    rw [if_neg hfit] at hreport
    exact nomatch hreport
  next =>
    split at hreport
    next => exact nomatch hreport
    next =>
      split at hreport
      next => exact nomatch hreport
      next =>
        unfold judge at hreport
        dsimp only at hreport
        split at hreport
        next => exact nomatch hreport
        next => exact nomatch hreport
  next => exact nomatch hreport

/-- The frame in progress does not fit, and its bytes are being swallowed. -/
def Discarding (capacity : Nat) (pending : List UInt8) : Prop :=
  ∃ c i l1 l2 junk, pending = 0xB5 :: 0x62 :: c :: i :: l1 :: l2 :: junk ∧
    capacity < leValue [l1, l2]

/-- Swallowing starts with a report. -/
theorem not_discarding_next {capacity : Nat} {pending : List UInt8} {byte : UInt8}
    (h : ¬ Discarding capacity pending) (hreport : (assemble capacity pending byte).1 ≠ .oversize) :
    ¬ Discarding capacity (assemble capacity pending byte).2 := by
  intro hdiscarding
  obtain ⟨c, i, l1, l2, junk, hnext, hover⟩ := hdiscarding
  unfold assemble at hreport hnext
  split at hnext
  next =>
    split at hnext
    next => exact nomatch hnext
    next => exact nomatch hnext
  next =>
    split at hnext
    next => exact nomatch hnext
    next =>
      split at hnext
      next => exact nomatch hnext
      next => exact nomatch hnext
  next =>
    cases hnext
    exact hreport (if_pos hover)
  next =>
    split at hnext
    next =>
      cases hnext
      exact h ⟨c, i, l1, l2, _, rfl, hover⟩
    next =>
      split at hnext
      next => exact nomatch hnext
      next => exact nomatch hnext
  next _ _ h5 h6 =>
    -- what is left has two to four bytes, and with one more is no header
    match pending with
    | [] => exact nomatch hnext
    | [_] => exact nomatch hnext
    | [_, _] => exact nomatch hnext
    | [_, _, _] => exact nomatch hnext
    | [_, _, _, _] => exact nomatch hnext
    | [a, b, c, d, l1] => exact h5 a b c d l1 rfl
    | a :: b :: c :: i :: l1 :: l2 :: tail => exact h6 a b c i l1 l2 tail rfl

/-! ## Hunting -/

/-- Nothing of a frame is there, or a first sync byte. -/
def Hunting (pending : List UInt8) : Prop := pending = [] ∨ pending = [0xB5]

theorem findSync_cons (b : UInt8) (bs : List UInt8) :
    findSync (b :: bs) =
      if b = 0xB5 ∧ bs.head? = some 0x62 then some 0 else (findSync bs).map (· + 1) := by
  unfold findSync
  rw [List.length_cons, List.range_succ_eq_map, List.find?_cons, List.find?_map]
  by_cases h : b = 0xB5 ∧ bs.head? = some 0x62
  · rw [if_pos h, decide_eq_true (by simpa [List.head?_eq_getElem?] using h)]
  · rw [if_neg h, decide_eq_false (by simpa [List.head?_eq_getElem?] using h)]
    rfl

/-- What one byte does to the hunt: it completes the sync pair, or the hunt goes
on behind the bytes it drops. -/
theorem hunting_step (capacity : Nat) {pending : List UInt8} (h : Hunting pending) (b : UInt8) :
    (assemble capacity pending b).1 = .inProgress ∧
    ((pending = [0xB5] ∧ b = 0x62 ∧ (assemble capacity pending b).2 = [0xB5, 0x62]) ∨
      (Hunting (assemble capacity pending b).2 ∧
        ∃ dropped, pending ++ [b] = dropped ++ (assemble capacity pending b).2 ∧
          ∀ bs, findSync (pending ++ b :: bs) =
            (findSync ((assemble capacity pending b).2 ++ bs)).map (· + dropped.length))) := by
  rcases h with rfl | rfl
  · -- nothing is pending, and only a first sync byte is kept
    refine ⟨rfl, Or.inr ?_⟩
    by_cases hb : b = 0xB5
    · subst hb
      refine ⟨Or.inr rfl, [], rfl, ?_⟩
      intro bs
      exact Option.map_id'.symm
    · have hnext : (assemble capacity [] b).2 = [] := if_neg hb
      rw [hnext]
      refine ⟨Or.inl rfl, [b], rfl, ?_⟩
      intro bs
      rw [List.nil_append, findSync_cons, if_neg (fun h => hb h.1)]
      rfl
  · refine ⟨rfl, ?_⟩
    by_cases h62 : b = 0x62
    · subst h62
      exact Or.inl ⟨rfl, rfl, rfl⟩
    · refine Or.inr ?_
      -- a false start: of two first sync bytes the second is kept
      by_cases hb : b = 0xB5
      · subst hb
        refine ⟨Or.inr rfl, [0xB5], rfl, ?_⟩
        intro bs
        rw [List.cons_append, findSync_cons, if_neg (fun h => absurd h.2 (by simp))]
        rfl
      · have hnext : (assemble capacity [0xB5] b).2 = [] := by
          show (if b = 0x62 then _ else if b = 0xB5 then _ else _) = _
          rw [if_neg h62, if_neg hb]
        rw [hnext]
        refine ⟨Or.inl rfl, [0xB5, b], rfl, ?_⟩
        intro bs
        rw [List.cons_append, findSync_cons, if_neg (fun h => h62 (by simpa using h.2)),
          List.nil_append, findSync_cons, if_neg (fun h => hb h.1), Option.map_map]
        rfl

/-- Without a sync pair the hunt goes on to the end. -/
theorem assembleAll_hunt_none (capacity : Nat) :
    ∀ (bytes pending : List UInt8), Hunting pending → findSync (pending ++ bytes) = none →
      (assembleAll capacity pending bytes).1 = List.replicate bytes.length .inProgress ∧
        Hunting (assembleAll capacity pending bytes).2 := by
  intro bs
  induction bs with
  | nil =>
    intro pending h _
    exact ⟨rfl, h⟩
  | cons b bs ih =>
    intro pending h hnone
    obtain ⟨hquiet, hsync | ⟨hhunt, hfind⟩⟩ := hunting_step capacity h b
    · obtain ⟨rfl, rfl, -⟩ := hsync
      rw [List.cons_append, findSync_cons, if_pos ⟨rfl, rfl⟩] at hnone
      exact nomatch hnone
    · obtain ⟨dropped, -, hfind⟩ := hfind
      rw [hfind, Option.map_eq_none_iff] at hnone
      obtain ⟨hrest, hend⟩ := ih _ hhunt hnone
      rw [assembleAll_cons, hquiet, hrest]
      exact ⟨rfl, hend⟩

/-- With the first sync pair at `k` the hunt ends behind it. -/
theorem assembleAll_hunt_some (capacity : Nat) :
    ∀ (bytes pending : List UInt8) (k : Nat), Hunting pending →
      findSync (pending ++ bytes) = some k →
      pending.length ≤ k + 1 ∧ k + 2 ≤ (pending ++ bytes).length ∧
      assembleAll capacity pending bytes =
        (List.replicate (k + 2 - pending.length) .inProgress
            ++ (assembleAll capacity [0xB5, 0x62] ((pending ++ bytes).drop (k + 2))).1,
          (assembleAll capacity [0xB5, 0x62] ((pending ++ bytes).drop (k + 2))).2)
  | [], pending, k, h, hsome => by
    rcases h with rfl | rfl
    · exact nomatch hsome
    · exact nomatch hsome
  | b :: bs, pending, k, h, hsome => by
    -- either this byte completes the pair, or the first pair lies behind it
    obtain ⟨hquiet, hsync | ⟨hhunt, hfind⟩⟩ := hunting_step capacity h b
    · obtain ⟨rfl, rfl, hnext⟩ := hsync
      rw [List.cons_append, findSync_cons, if_pos ⟨rfl, rfl⟩] at hsome
      cases hsome
      exact ⟨Nat.le_refl _, by simp, rfl⟩
    · obtain ⟨dropped, hdrop, hfind⟩ := hfind
      rw [hfind, Option.map_eq_some_iff] at hsome
      obtain ⟨k', hk', rfl⟩ := hsome
      obtain ⟨hle, hlen, hrest⟩ := assembleAll_hunt_some capacity bs _ k' hhunt hk'
      have hsplit : pending ++ b :: bs = dropped ++ ((assemble capacity pending b).2 ++ bs) := by
        rw [← List.append_assoc, ← hdrop, List.append_assoc]
        rfl
      have hlengths := congrArg List.length hdrop
      simp only [List.length_append, List.length_singleton] at hlengths hlen
      refine ⟨by omega, ?_, ?_⟩
      · rw [hsplit, List.length_append, List.length_append]
        omega
      · have hdropped : (pending ++ b :: bs).drop (k' + dropped.length + 2)
            = ((assemble capacity pending b).2 ++ bs).drop (k' + 2) := by
          rw [hsplit, show k' + dropped.length + 2 = dropped.length + (k' + 2) by omega,
            List.drop_length_add_append]
        rw [hdropped, assembleAll_cons, hquiet, hrest,
          show k' + dropped.length + 2 - pending.length
            = k' + 2 - (assemble capacity pending b).2.length + 1 by omega, List.replicate_succ]
        rfl

/-! ## The frame behind the sync pair -/

/-- Fewer bytes than a header report nothing. -/
theorem assembleAll_short_header (capacity : Nat) {bytes : List UInt8} (h : bytes.length < 4) :
    (assembleAll capacity [0xB5, 0x62] bytes).1 = List.replicate bytes.length .inProgress := by
  match bytes, h with
  | [], _ => rfl
  | [_], _ => rfl
  | [_, _], _ => rfl
  | [_, _, _], _ => rfl

/-- The report at the last byte of the header. -/
def headerReport (capacity length : Nat) : Report :=
  if capacity < length then .oversize else .inProgress

theorem assembleAll_header (capacity : Nat) (c i l1 l2 : UInt8) (bytes : List UInt8) :
    assembleAll capacity [0xB5, 0x62] (c :: i :: l1 :: l2 :: bytes) =
      (.inProgress :: .inProgress :: .inProgress :: headerReport capacity (leValue [l1, l2])
          :: (assembleAll capacity [0xB5, 0x62, c, i, l1, l2] bytes).1,
        (assembleAll capacity [0xB5, 0x62, c, i, l1, l2] bytes).2) := rfl

/-- Short of the end of a frame the byte is kept. -/
theorem assemble_keeps (capacity : Nat) (c i l1 l2 : UInt8) {tail : List UInt8} (byte : UInt8)
    (h : tail.length < leValue [l1, l2] + 1) :
    assemble capacity (0xB5 :: 0x62 :: c :: i :: l1 :: l2 :: tail) byte
      = (.inProgress, 0xB5 :: 0x62 :: c :: i :: l1 :: l2 :: (tail ++ [byte])) := by
  show (if tail.length + 1 < leValue [l1, l2] + 2 then _ else _) = _
  rw [if_pos (by omega)]
  rfl

/-- Bytes before the last one of the frame are kept. -/
theorem assembleAll_tail (capacity : Nat) (c i l1 l2 : UInt8) :
    ∀ (bytes tail : List UInt8), tail.length + bytes.length < leValue [l1, l2] + 2 →
      assembleAll capacity (0xB5 :: 0x62 :: c :: i :: l1 :: l2 :: tail) bytes =
        (List.replicate bytes.length .inProgress,
          0xB5 :: 0x62 :: c :: i :: l1 :: l2 :: (tail ++ bytes)) := by
  intro bs
  induction bs with
  | nil =>
    intro tail _
    rw [List.append_nil]
    rfl
  | cons b bs ih =>
    intro tail h
    rw [List.length_cons] at h
    rw [assembleAll_cons, assemble_keeps _ _ _ _ _ _ (by omega), ih (tail ++ [b])
      (by rw [List.length_append, List.length_singleton]; omega), List.append_assoc]
    rfl

/-- The report at the last byte of the frame. -/
def lastReport (capacity : Nat) (c i l1 l2 : UInt8) (tail : List UInt8) : Report :=
  if capacity < leValue [l1, l2] then .inProgress else judge c i l1 l2 tail

theorem assemble_last (capacity : Nat) (c i l1 l2 : UInt8) {tail : List UInt8} (b : UInt8)
    (h : tail.length = leValue [l1, l2] + 1) :
    assemble capacity (0xB5 :: 0x62 :: c :: i :: l1 :: l2 :: tail) b
      = (lastReport capacity c i l1 l2 (tail ++ [b]), []) := by
  unfold lastReport
  show (if tail.length + 1 < leValue [l1, l2] + 2 then _ else _) = _
  rw [if_neg (by omega)]
  split
  next => rfl
  next => rfl

/-- What is judged at the second checksum byte: the sums kept while the body
came in, against the two bytes received. -/
theorem judge_eq {c i l1 l2 : UInt8} {data : List UInt8} (hlen : data.length = leValue [l1, l2])
    (a b : UInt8) :
    judge c i l1 l2 (data ++ [a] ++ [b]) =
      if a = (Fletcher.sums ([c, i, l1, l2] ++ data)).1 ∧
          b = (Fletcher.sums ([c, i, l1, l2] ++ data)).2 then
        .frameComplete (some ⟨c, i, UInt16.ofNat (leValue [l1, l2]), data⟩)
      else .checksumError := by
  unfold judge
  rw [List.append_assoc, ← hlen]
  dsimp only
  rw [List.take_left, List.drop_left]
  simp only [List.singleton_append, List.cons.injEq, and_true]

/-- A whole frame behind its header: one report at its last byte, and the hunt
starts again right behind it. -/
theorem assembleAll_frame (capacity : Nat) (c i l1 l2 : UInt8) {rest : List UInt8}
    (h : leValue [l1, l2] + 2 ≤ rest.length) :
    assembleAll capacity [0xB5, 0x62, c, i, l1, l2] rest =
      (List.replicate (leValue [l1, l2] + 1) .inProgress
          ++ lastReport capacity c i l1 l2 (rest.take (leValue [l1, l2] + 2))
          :: (assembleAll capacity [] (rest.drop (leValue [l1, l2] + 2))).1,
        (assembleAll capacity [] (rest.drop (leValue [l1, l2] + 2))).2) := by
  have hlt : leValue [l1, l2] + 1 < rest.length := by omega
  have hsplit : rest = rest.take (leValue [l1, l2] + 1)
      ++ rest[leValue [l1, l2] + 1] :: rest.drop (leValue [l1, l2] + 2) := by
    rw [← List.drop_eq_getElem_cons hlt, List.take_append_drop]
  have htake : (rest.take (leValue [l1, l2] + 1)).length = leValue [l1, l2] + 1 := by
    rw [List.length_take]
    omega
  have htail : assembleAll capacity [0xB5, 0x62, c, i, l1, l2]
      (rest.take (leValue [l1, l2] + 1)) = _ :=
    assembleAll_tail capacity c i l1 l2 _ [] (by rw [htake, List.length_nil]; omega)
  conv => lhs; rw [hsplit]
  rw [assembleAll_append, htail, assembleAll_cons, List.nil_append, assemble_last _ _ _ _ _ _ htake,
    List.take_append_getElem hlt, htake]

/-! ## The assembler reports what the scanner does -/

theorem replicate_append_cons (n : Nat) (rs : List Report) :
    List.replicate n .inProgress ++ .inProgress :: rs
      = List.replicate (n + 1) .inProgress ++ rs := by
  rw [List.replicate_succ', List.append_assoc]
  rfl

/-- The bytes of a frame that does not fit are swallowed, as far as they go. -/
theorem assembleAll_oversize {capacity : Nat} (c i : UInt8) {l1 l2 : UInt8} (rest : List UInt8)
    (h : capacity < leValue [l1, l2]) :
    (assembleAll capacity [0xB5, 0x62, c, i, l1, l2] rest).1 =
      List.replicate (min (leValue [l1, l2] + 2) rest.length) .inProgress
        ++ (assembleAll capacity [] (rest.drop (leValue [l1, l2] + 2))).1 := by
  by_cases hlen : leValue [l1, l2] + 2 ≤ rest.length
  · rw [assembleAll_frame _ _ _ _ _ hlen, lastReport, if_pos h, Nat.min_eq_left hlen]
    exact replicate_append_cons _ _
  · have htail := assembleAll_tail capacity c i l1 l2 rest [] (by rw [List.length_nil]; omega)
    rw [htail, Nat.min_eq_right (by omega), List.drop_eq_nil_of_le (by omega)]
    exact (List.append_nil _).symm

/-- **The assembler is the scanner**, on every byte list. -/
theorem assemble_eq_scan (capacity : Nat) :
    ∀ (n : Nat) (bytes : List UInt8), bytes.length ≤ n →
      (assembleAll capacity [] bytes).1 = scan capacity bytes := by
  intro n
  induction n with
  | zero =>
    intro bytes hn
    have hnil : bytes = [] := List.eq_nil_of_length_eq_zero (by omega)
    subst hnil
    rw [scan]
    rfl
  | succ n ih =>
    intro bytes hn
    rw [scan]
    cases hfind : findSync bytes with
    | none => exact (assembleAll_hunt_none capacity bytes [] (Or.inl rfl) hfind).1
    | some k =>
      obtain ⟨-, hlen, hhunt⟩ := assembleAll_hunt_some capacity bytes [] k (Or.inl rfl) hfind
      simp only [List.nil_append, List.length_nil, Nat.sub_zero] at hlen hhunt
      rw [hhunt]
      dsimp only
      have hdroplen : (bytes.drop (k + 2)).length = bytes.length - (k + 2) := List.length_drop
      split
      next c i l1 l2 rest hdrop =>
        rw [hdrop, List.length_cons, List.length_cons, List.length_cons, List.length_cons]
          at hdroplen
        have hrest : ∀ m, (assembleAll capacity [] (rest.drop m)).1
            = scan capacity (rest.drop m) := fun m =>
          ih _ (by rw [List.length_drop]; omega)
        rw [hdrop, assembleAll_header]
        -- the frame is too large, or cut short by the end of the list, or whole
        by_cases hover : capacity < leValue [l1, l2]
        · rw [if_pos hover, headerReport, if_pos hover, assembleAll_oversize c i rest hover, hrest]
          simp only [replicate_append_cons, List.append_assoc, List.cons_append]
        · rw [if_neg hover, headerReport, if_neg hover]
          simp only [replicate_append_cons]
          by_cases hshort : rest.length < leValue [l1, l2] + 2
          · have htail := assembleAll_tail capacity c i l1 l2 rest []
              (by rw [List.length_nil]; omega)
            rw [if_pos hshort, htail, List.replicate_append_replicate]
            congr 1
            omega
          · rw [if_neg hshort, assembleAll_frame _ _ _ _ _ (by omega), lastReport, if_neg hover,
              hrest, ← List.append_assoc, List.replicate_append_replicate]
            congr 2
            omega
      next hdrop =>
        -- the list ends inside the header
        have hshort : (bytes.drop (k + 2)).length < 4 := by
          match hb : bytes.drop (k + 2) with
          | [] => exact Nat.zero_lt_succ _
          | [_] => exact Nat.lt_of_sub_eq_succ rfl
          | [_, _] => exact Nat.lt_of_sub_eq_succ rfl
          | [_, _, _] => exact Nat.lt_of_sub_eq_succ rfl
          | c :: i :: l1 :: l2 :: rest => exact absurd hb (hdrop c i l1 l2 rest)
        rw [assembleAll_short_header capacity hshort, List.replicate_append_replicate]
        congr 1
        omega

end Ubx.Stream
