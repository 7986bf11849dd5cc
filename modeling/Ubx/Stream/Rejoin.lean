import Ubx.Stream.Resync

/-!
# Joining in the middle

A parser that is switched on while a receiver sends, or that lost a byte, takes
some bytes for a frame that is none. `hunts_afresh` says how that ends, whatever
is fed: after one false result at most, and 65542 bytes at most, the reports are
those of a parser that starts there.

Where a parser starts is not where a frame does. But if no sync pair is in the
stream besides the ones its frames begin with (`OnlyStarts`), the rest of the
frame that it starts in is noise to it, and every frame behind is found
(`results_from`). `rejoins` puts the two together.
-/

namespace Ubx.Stream

open Lib

variable {P : Platform} {p : UbxParser}

/-! ## Where frames begin -/

/-- A frame of the stream begins at byte `k`. -/
def BeginsAt : List Segment → Nat → Prop
  | [], _ => False
  | .noise bytes :: rest, k => bytes.length ≤ k ∧ BeginsAt rest (k - bytes.length)
  | .encoded _ _ _ bytes :: rest, k =>
    k = 0 ∨ bytes.length ≤ k ∧ BeginsAt rest (k - bytes.length)

/-- The stream has no sync pair but those its frames begin with. -/
def OnlyStarts (segments : List Segment) : Prop :=
  ∀ k, (segments.flatMap Segment.bytes)[k]? = some 0xB5 →
    (segments.flatMap Segment.bytes)[k + 1]? = some 0x62 → BeginsAt segments k

instance decidableBeginsAt : ∀ segments k, Decidable (BeginsAt segments k)
  | [], _ => inferInstanceAs (Decidable False)
  | .noise bytes :: rest, k =>
    have := decidableBeginsAt rest (k - bytes.length)
    inferInstanceAs (Decidable (bytes.length ≤ k ∧ BeginsAt rest (k - bytes.length)))
  | .encoded _ _ _ bytes :: rest, k =>
    have := decidableBeginsAt rest (k - bytes.length)
    inferInstanceAs (Decidable (k = 0 ∨ bytes.length ≤ k ∧ BeginsAt rest (k - bytes.length)))

/-- Only the bytes that there are have to be looked at. -/
theorem onlyStarts_iff {segments : List Segment} :
    OnlyStarts segments ↔ ∀ k < (segments.flatMap Segment.bytes).length,
      (segments.flatMap Segment.bytes)[k]? = some 0xB5 →
        (segments.flatMap Segment.bytes)[k + 1]? = some 0x62 → BeginsAt segments k :=
  ⟨fun h k _ => h k, fun h k hfirst => h k (List.getElem?_eq_some_iff.mp hfirst).1 hfirst⟩

instance (segments : List Segment) : Decidable (OnlyStarts segments) :=
  decidable_of_iff' _ onlyStarts_iff

/-- The segments that begin at byte `n` or behind it. -/
def fromByte : Nat → List Segment → List Segment
  | 0, segments => segments
  | _, [] => []
  | n + 1, segment :: rest => fromByte (n + 1 - segment.bytes.length) rest

section

variable {front bytes : List UInt8} {segments : List Segment}

/-- A frame that does not begin with the front segment begins behind it. -/
theorem BeginsAt.behind {segment : Segment} {k : Nat} (h : BeginsAt (segment :: segments) k)
    (hk : 0 < k ∨ ∃ bytes, segment = .noise bytes) :
    segment.bytes.length ≤ k ∧ BeginsAt segments (k - segment.bytes.length) := by
  cases segment with
  | noise bytes => exact h
  | encoded c i payload bytes =>
    refine h.resolve_left fun hzero => ?_
    rcases hk with hpos | ⟨_, hnoise⟩
    · omega
    · cases hnoise

/-- What is left of a frame is noise, as what is left of noise. -/
theorem OnlyStarts.drop {segment : Segment} {n : Nat} (h : OnlyStarts (segment :: segments))
    (hn : n ≤ segment.bytes.length) (hfront : 0 < n ∨ ∃ bytes, segment = .noise bytes) :
    OnlyStarts (.noise (segment.bytes.drop n) :: segments) := by
  intro k hfirst hsecond
  have hdrop : segment.bytes.drop n ++ segments.flatMap Segment.bytes
      = (segment.bytes ++ segments.flatMap Segment.bytes).drop n :=
    (List.drop_append_of_le_length hn).symm
  rw [List.flatMap_cons, Segment.bytes, hdrop, List.getElem?_drop] at hfirst hsecond
  obtain ⟨hle, hbegins⟩ := (h (n + k) hfirst hsecond).behind (hfront.imp_left (by omega))
  rw [BeginsAt, List.length_drop]
  refine ⟨by omega, ?_⟩
  rwa [show k - (segment.bytes.length - n) = n + k - segment.bytes.length by omega]

theorem OnlyStarts.noise_nil : OnlyStarts (.noise [] :: segments) ↔ OnlyStarts segments := by
  constructor
  · intro h k hfirst hsecond
    exact (h k hfirst hsecond).2
  · intro h k hfirst hsecond
    exact ⟨Nat.zero_le k, h k hfirst hsecond⟩

/-- Noise behind noise is noise. -/
theorem OnlyStarts.noise_append (h : OnlyStarts (.noise front :: .noise bytes :: segments)) :
    OnlyStarts (.noise (front ++ bytes) :: segments) := by
  intro k hfirst hsecond
  rw [List.flatMap_cons, Segment.bytes, List.append_assoc] at hfirst hsecond
  obtain ⟨hfront, hbytes, hbegins⟩ := h k hfirst hsecond
  rw [BeginsAt, List.length_append]
  exact ⟨by omega, by rwa [Nat.sub_add_eq]⟩

/-- The front segment can go. -/
theorem OnlyStarts.tail {segment : Segment} (h : OnlyStarts (segment :: segments))
    (hfront : 0 < segment.bytes.length ∨ ∃ bytes, segment = .noise bytes) :
    OnlyStarts segments := by
  have hnil := h.drop (Nat.le_refl _) hfront
  rwa [List.drop_length, noise_nil] at hnil

/-- In noise there is no sync pair. -/
theorem OnlyStarts.findSync_none (h : OnlyStarts (.noise bytes :: segments)) :
    findSync bytes = none := by
  apply Stream.findSync_none
  intro k hpair
  obtain ⟨hfirst, hsecond⟩ := hpair
  obtain ⟨hlt, -⟩ := List.getElem?_eq_some_iff.mp hsecond
  have hbegins := h k (by rw [List.flatMap_cons, Segment.bytes,
      List.getElem?_append_left (by omega), hfirst])
    (by rw [List.flatMap_cons, Segment.bytes, List.getElem?_append_left hlt, hsecond])
  exact absurd hbegins.1 (by omega)

end

/-! ## The hunt -/

/-- What the hunt keeps is the end of what it was given. -/
theorem hunt_keeps (capacity : Nat) :
    ∀ (bytes pending : List UInt8), Hunting pending → findSync (pending ++ bytes) = none →
      ∃ n, n ≤ (pending ++ bytes).length ∧
        (assembleAll capacity pending bytes).2 = (pending ++ bytes).drop n := by
  intro bs
  induction bs with
  | nil =>
    intro pending _ _
    exact ⟨0, Nat.zero_le _, (List.append_nil pending).symm⟩
  | cons b bs ih =>
    intro pending h hnone
    obtain ⟨-, hsync | ⟨hhunt, dropped, hsplit, hfind⟩⟩ := hunting_step capacity h b
    · obtain ⟨rfl, rfl, -⟩ := hsync
      rw [List.cons_append, findSync_cons, if_pos ⟨rfl, rfl⟩] at hnone
      cases hnone
    · rw [hfind, Option.map_eq_none_iff] at hnone
      obtain ⟨n, hn, hkept⟩ := ih _ hhunt hnone
      have hall : pending ++ b :: bs
          = dropped ++ ((assemble capacity pending b).2 ++ bs) := by
        rw [← List.append_assoc, ← hsplit, List.append_assoc, List.singleton_append]
      refine ⟨dropped.length + n, ?_, ?_⟩
      · rw [hall, List.length_append]
        exact Nat.add_le_add_left hn _
      · rw [hall, ← List.drop_drop, List.drop_left]
        exact hkept

/-- The frames of a stream, as a list of encoder calls that succeeded. -/
def AllEncoded (P : Platform) (segments : List Segment) : Prop :=
  ∀ c i payload bytes, .encoded c i payload bytes ∈ segments → Encodes P c i payload bytes

/-- **A stream without false starts**, from a hunt on, has the results of its frames. -/
theorem results_hunting (capacity : Nat) :
    ∀ (segments : List Segment) (pending : List UInt8), Hunting pending →
      AllEncoded P segments → OnlyStarts (.noise pending :: segments) →
      results (assembleAll capacity pending (segments.flatMap Segment.bytes)).1
        = segments.filterMap (Segment.result capacity)
  | [], _, _, _, _ => rfl
  | .noise bytes :: rest, pending, hhunt, hencoded, honly => by
    have hboth := honly.noise_append
    obtain ⟨hquiet, hhunt'⟩ :=
      assembleAll_hunt_none capacity bytes pending hhunt hboth.findSync_none
    obtain ⟨n, hn, hkept⟩ := hunt_keeps capacity bytes pending hhunt hboth.findSync_none
    have hrest := hboth.drop hn (Or.inr ⟨_, rfl⟩)
    rw [List.flatMap_cons, Segment.bytes, assembleAll_append, results_append, hquiet,
      results_replicate, List.nil_append]
    rw [Segment.bytes, ← hkept] at hrest
    exact results_hunting capacity rest _ hhunt'
      (fun c i payload bytes h => hencoded c i payload bytes (List.mem_cons_of_mem _ h)) hrest
  | .encoded c i payload bytes :: rest, pending, hhunt, hencoded, honly => by
    obtain ⟨hlen, rfl⟩ := encodes_eq (hencoded c i payload bytes (List.mem_cons_self ..))
    have hresult : Segment.result capacity (.encoded c i payload (frameBytes c i payload))
        = some (frameReport capacity c i payload) := rfl
    have hrest := (honly.tail (Or.inr ⟨_, rfl⟩)).tail (Or.inl (Nat.zero_lt_succ _))
    rw [List.flatMap_cons, Segment.bytes, assembleAll_append,
      assembleAll_encoded capacity hhunt c i hlen, results_append, results_frameReports,
      List.singleton_append, List.filterMap_cons_some hresult]
    exact congrArg _ (results_hunting capacity rest [] (Or.inl rfl)
      (fun c i payload bytes h => hencoded c i payload bytes (List.mem_cons_of_mem _ h))
      (OnlyStarts.noise_nil.mpr hrest))

/-- **From any byte on** it has the results of the frames that begin there or behind. -/
theorem results_from (capacity : Nat) :
    ∀ (segments : List Segment) (n : Nat), AllEncoded P segments → OnlyStarts segments →
      results (assembleAll capacity [] ((segments.flatMap Segment.bytes).drop n)).1
        = (fromByte n segments).filterMap (Segment.result capacity)
  | segments, 0, hencoded, honly => by
    rw [List.drop_zero, fromByte]
    exact results_hunting capacity segments [] (Or.inl rfl) hencoded
      (OnlyStarts.noise_nil.mpr honly)
  | [], _ + 1, _, _ => rfl
  | segment :: rest, n + 1, hencoded, honly => by
    have hencoded' : AllEncoded P rest :=
      fun c i payload bytes h => hencoded c i payload bytes (List.mem_cons_of_mem _ h)
    rw [List.flatMap_cons, fromByte]
    rcases Nat.lt_or_ge (n + 1) segment.bytes.length with hlt | hge
    · -- the byte is in the front segment, and what is left of it is noise
      have hnoise := honly.drop (Nat.le_of_lt hlt) (Or.inl (Nat.zero_lt_succ n))
      have hresults := results_hunting (P := P) capacity
        (.noise (segment.bytes.drop (n + 1)) :: rest) [] (Or.inl rfl)
        (fun c i payload bytes h => hencoded' c i payload bytes
          ((List.mem_cons.mp h).resolve_left nofun)) (OnlyStarts.noise_nil.mpr hnoise)
      rw [List.drop_append_of_le_length (Nat.le_of_lt hlt),
        Nat.sub_eq_zero_of_le (Nat.le_of_lt hlt), fromByte]
      exact hresults
    · have hpos : 0 < segment.bytes.length ∨ ∃ bytes, segment = .noise bytes := by
        cases segment with
        | noise bytes => exact Or.inr ⟨bytes, rfl⟩
        | encoded c i payload bytes =>
          obtain ⟨-, rfl⟩ := encodes_eq (hencoded c i payload bytes (List.mem_cons_self ..))
          exact Or.inl (Nat.zero_lt_succ _)
      rw [List.drop_append, List.drop_eq_nil_of_le hge, List.nil_append]
      exact results_from capacity rest _ hencoded' (honly.tail hpos)

/-! ## The frame that is none -/

/-- The header of the frame in progress says a length that does not fit. -/
def TooLong (capacity : Nat) (pending : List UInt8) : Prop :=
  ∃ a b c i l1 l2 tail, pending = a :: b :: c :: i :: l1 :: l2 :: tail ∧
    capacity < leValue [l1, l2]

section

variable {capacity : Nat} {pending : List UInt8} {byte : UInt8}

theorem TooLong.append (h : TooLong capacity pending) : TooLong capacity (pending ++ [byte]) := by
  obtain ⟨a, b, c, i, l1, l2, tail, rfl, hover⟩ := h
  exact ⟨a, b, c, i, l1, l2, tail ++ [byte], rfl, hover⟩

/-- Such a frame ends without another report. -/
theorem TooLong.quiet (h : TooLong capacity pending) :
    (assemble capacity pending byte).1 = .inProgress := by
  obtain ⟨a, b, c, i, l1, l2, tail, rfl, hover⟩ := h
  show (if tail.length + 1 < leValue [l1, l2] + 2 then _ else if capacity < leValue [l1, l2] then _
    else _ : Report × List UInt8).1 = _
  rw [if_pos hover]
  split
  next => rfl
  next => rfl

theorem tooLong_of_oversize (h : (assemble capacity pending byte).1 = .oversize) :
    TooLong capacity (assemble capacity pending byte).2 := by
  obtain ⟨a, b, c, i, l1, rfl, hover⟩ := assemble_oversize h
  exact ⟨a, b, c, i, l1, byte, [], rfl, hover⟩

/-- A frame in progress grows or is over. -/
theorem progress_next (capacity : Nat) (byte : UInt8) (h : 2 ≤ pending.length) :
    (assemble capacity pending byte).2 = [] ∨
      ((assemble capacity pending byte).1 = .inProgress ∨
          (assemble capacity pending byte).1 = .oversize) ∧
        (assemble capacity pending byte).2 = pending ++ [byte] := by
  rcases assemble_next capacity pending byte with hnil | ⟨hreport, hgrows | ⟨rfl, hstart⟩⟩
  · exact Or.inl hnil
  · exact Or.inr ⟨hreport, hgrows⟩
  · -- a hunt starts again only from a first sync byte at most
    exfalso
    unfold assemble at hstart
    split at hstart
    next => exact absurd h (by simp)
    next => exact absurd h (by simp)
    next => cases hstart
    next =>
      split at hstart
      next => cases hstart
      next =>
        split at hstart
        next => cases hstart
        next => cases hstart
    next =>
      have hlen := congrArg List.length hstart
      rw [List.length_append] at hlen
      simp only [List.length_cons, List.length_nil] at hlen
      omega

end

theorem results_cons (report : Report) (reports : List Report) :
    results (report :: reports)
      = if report = .inProgress then results reports else report :: results reports := by
  rw [results, List.filter_cons]
  split
  next h =>
    rw [if_neg (of_decide_eq_true h)]
    rfl
  next h =>
    rw [if_pos (by simpa using h)]
    rfl

/-- **A frame in progress** has one result at most, whether it ends or not. -/
theorem progress_ends (capacity : Nat) :
    ∀ (bytes pending : List UInt8), 2 ≤ pending.length →
      ∃ m, m ≤ bytes.length ∧
        (results (assembleAll capacity pending (bytes.take m)).1).length ≤ 1 ∧
        (TooLong capacity pending → results (assembleAll capacity pending (bytes.take m)).1 = []) ∧
        (∀ n < m, (assembleAll capacity pending (bytes.take n)).2 = pending ++ bytes.take n) ∧
        ((assembleAll capacity pending (bytes.take m)).2 = [] ∨ m = bytes.length) := by
  intro bs
  induction bs with
  | nil =>
    intro pending _
    exact ⟨0, Nat.le_refl 0, Nat.zero_le 1, fun _ => rfl, fun n hn => absurd hn (Nat.not_lt_zero n),
      Or.inr rfl⟩
  | cons b bs ih =>
    intro pending hlen
    rcases progress_next capacity b hlen with hnil | ⟨hreport, hgrows⟩
    · refine ⟨1, Nat.le_add_left .., ?_, ?_, ?_, Or.inl hnil⟩
      · exact List.length_filter_le _ [(assemble capacity pending b).1]
      · intro hlong
        show results [(assemble capacity pending b).1] = []
        rw [hlong.quiet]
        rfl
      · intro n hn
        rw [Nat.lt_one_iff.mp hn]
        exact (List.append_nil pending).symm
    · obtain ⟨m, hm, hone, hquiet, hbefore, hend⟩ := ih (pending ++ [b]) (by
        rw [List.length_append]
        omega)
      have htake : ∀ n, assembleAll capacity pending ((b :: bs).take (n + 1))
          = ((assemble capacity pending b).1
              :: (assembleAll capacity (pending ++ [b]) (bs.take n)).1,
            (assembleAll capacity (pending ++ [b]) (bs.take n)).2) := by
        intro n
        rw [List.take_succ_cons, assembleAll_cons, hgrows]
      refine ⟨m + 1, Nat.succ_le_succ hm, ?_, ?_, ?_, ?_⟩
      · rw [htake, results_cons]
        split
        next => exact hone
        next hne =>
          -- it was too large, and has had its result
          have hlong := tooLong_of_oversize (hreport.resolve_left hne)
          rw [hgrows] at hlong
          rw [hquiet hlong]
          exact Nat.le_refl 1
      · intro hlong
        rw [htake, results_cons, if_pos hlong.quiet]
        exact hquiet hlong.append
      · intro n hn
        cases n with
        | zero => exact (List.append_nil pending).symm
        | succ n =>
          rw [htake, List.take_succ_cons, hbefore n (Nat.lt_of_succ_lt_succ hn), List.append_assoc,
            List.singleton_append]
      · rw [htake]
        exact hend.imp_right (congrArg Nat.succ)

/-- By its header the frame in progress takes `n` more bytes, or there is none. -/
def Owes (pending : List UInt8) (n : Nat) : Prop :=
  pending = [] ∧ n = 0 ∨ ∃ c i l1 l2 tail, pending = 0xB5 :: 0x62 :: c :: i :: l1 :: l2 :: tail ∧
    0 < n ∧ tail.length + n = leValue [l1, l2] + 2

/-- It takes them and no more. -/
theorem Owes.exact {pending bytes : List UInt8} {n m : Nat} (capacity : Nat)
    (howes : Owes pending n) (hne : pending ≠ []) (hm : m ≤ bytes.length)
    (hbefore : ∀ k < m, (assembleAll capacity pending (bytes.take k)).2 = pending ++ bytes.take k)
    (hend : (assembleAll capacity pending (bytes.take m)).2 = [] ∨ m = bytes.length) :
    m = min n bytes.length := by
  obtain ⟨c, i, l1, l2, tail, rfl, hpos, hn⟩ := howes.resolve_left fun h => hne h.1
  rcases Nat.lt_or_ge m n with hlt | hge
  · -- the frame is still in progress, so the bytes are used up
    have htail := assembleAll_tail capacity c i l1 l2 (bytes.take m) tail (by
      rw [List.length_take]
      omega)
    have hlast := hend.resolve_left (by rw [htail]; exact nofun)
    omega
  · have hover : ¬ n < m := by
      intro hlt
      have hgrown := hbefore n hlt
      have hsplit : bytes.take n = bytes.take (n - 1) ++ [bytes[n - 1]] := by
        rw [List.take_append_getElem (by omega), Nat.sub_add_cancel hpos]
      have hfront : (bytes.take (n - 1)).length = n - 1 := by
        rw [List.length_take]
        omega
      rw [hsplit, assembleAll_append, assembleAll_tail capacity c i l1 l2 (bytes.take (n - 1)) tail
        (by omega), assembleAll_cons, assemble_last _ _ _ _ _ _ (by
          rw [List.length_append]
          omega)] at hgrown
      cases hgrown
    omega

/-! ## Starting again -/

/-- **Whatever is in progress**, after some bytes and one result at most the results
are those of a parser that starts there. -/
theorem hunts_afresh (capacity : Nat) (bytes pending : List UInt8)
    (h : Hunting pending ∨ 2 ≤ pending.length) :
    ∃ m, m ≤ bytes.length ∧ (∀ n, Owes pending n → m = min n bytes.length) ∧
      (results (assembleAll capacity pending (bytes.take m)).1).length ≤ 1 ∧
      (∀ n < m, (assembleAll capacity pending (bytes.take n)).2 = pending ++ bytes.take n) ∧
      results (assembleAll capacity (assembleAll capacity pending (bytes.take m)).2
          (bytes.drop m)).1
        = results (assembleAll capacity [] (bytes.drop m)).1 := by
  rcases h with (rfl | rfl) | hlen
  · refine ⟨0, Nat.zero_le _, fun n howes => ?_, Nat.zero_le 1,
      fun n hn => absurd hn (Nat.not_lt_zero n), rfl⟩
    rcases howes with ⟨-, rfl⟩ | ⟨_, _, _, _, _, hnil, -⟩
    · exact (Nat.zero_min _).symm
    · cases hnil
  · have hunknown : ∀ n, ¬ Owes [0xB5] n := by
      intro n howes
      rcases howes with ⟨hnil, -⟩ | ⟨_, _, _, _, _, hone, -⟩
      · cases hnil
      · cases hone
    cases bytes with
    | nil =>
      exact ⟨0, Nat.le_refl 0, fun n howes => absurd howes (hunknown n), Nat.zero_le 1,
        fun n hn => absurd hn (Nat.not_lt_zero n), rfl⟩
    | cons b bs =>
      by_cases hb : b = 0x62
      · subst hb
        obtain ⟨m, hm, hone, -, hbefore, hend⟩ := progress_ends capacity bs [0xB5, 0x62] (by simp)
        refine ⟨m + 1, Nat.succ_le_succ hm, fun n howes => absurd howes (hunknown n), hone, ?_, ?_⟩
        · intro n hn
          cases n with
          | zero => rfl
          | succ n => exact hbefore n (Nat.lt_of_succ_lt_succ hn)
        · show results (assembleAll capacity (assembleAll capacity [0xB5, 0x62] (bs.take m)).2
            (bs.drop m)).1 = results (assembleAll capacity [] (bs.drop m)).1
          rcases hend with hnil | rfl
          · rw [hnil]
          · rw [List.drop_length]
            rfl
      · -- the first sync byte was a false start
        have hsame : assemble capacity [0xB5] b = assemble capacity [] b := by
          show (_, if b = 0x62 then _ else _) = (_, _)
          rw [if_neg hb]
        refine ⟨0, Nat.zero_le _, fun n howes => absurd howes (hunknown n), Nat.zero_le 1,
          fun n hn => absurd hn (Nat.not_lt_zero n), ?_⟩
        show results (assembleAll capacity [0xB5] (b :: bs)).1 = _
        rw [assembleAll_cons, hsame, ← assembleAll_cons]
        rfl
  · obtain ⟨m, hm, hone, -, hbefore, hend⟩ := progress_ends capacity bytes pending hlen
    have hne : pending ≠ [] := List.ne_nil_of_length_pos (Nat.lt_of_succ_lt hlen)
    refine ⟨m, hm, fun n howes => howes.exact capacity hne hm hbefore hend, hone, hbefore, ?_⟩
    rcases hend with hnil | rfl
    · rw [hnil]
    · rw [List.drop_length]
      rfl

theorem Rep.hunting_or {pending : List UInt8} (hr : Rep p pending) :
    Hunting pending ∨ 2 ≤ pending.length := by
  cases hr with
  | sync1 => exact Or.inl (Or.inl rfl)
  | sync2 => exact Or.inl (Or.inr rfl)
  | _ => exact Or.inr (Nat.le_add_left 2 _)

/-- The bytes that the parser still takes for the frame in progress, where its state
says how many. -/
def UbxParser.owed (p : UbxParser) : Option Nat :=
  match p.state with
  | .sync1 => some 0
  | .payload => some (p.payloadLength.toNat - p.payloadIndex + 2)
  | .checksumA => some 2
  | .checksumB => some 1
  | .discard => some p.discardRemaining
  | _ => none

theorem Rep.owes {pending : List UInt8} (hr : Rep p pending) {n : Nat} (hn : p.owed = some n) :
    Owes pending n := by
  unfold UbxParser.owed at hn
  cases hr with
  | sync1 hs =>
    rw [hs] at hn
    cases hn
    exact Or.inl ⟨rfl, rfl⟩
  | payload hs hstarted hheader hlt =>
    rw [hs] at hn
    cases hn
    rw [hheader.length, length_value, hstarted.index_eq]
    exact Or.inr ⟨_, _, _, _, _, rfl, Nat.zero_lt_succ _, by omega⟩
  | checksumA hs _ _ hlen =>
    rw [hs] at hn
    cases hn
    exact Or.inr ⟨_, _, _, _, _, rfl, Nat.zero_lt_succ 1, by rw [hlen]⟩
  | checksumB hs _ _ hlen =>
    rw [hs] at hn
    cases hn
    exact Or.inr ⟨_, _, _, _, _, rfl, Nat.zero_lt_succ 0, by rw [List.length_append, hlen]; rfl⟩
  | discard hs _ _ hlt hremaining =>
    rw [hs] at hn
    cases hn
    exact Or.inr ⟨_, _, _, _, _, rfl, by omega, by omega⟩
  | _ hs =>
    rw [hs] at hn
    cases hn

/-- **Joining a stream in the middle.** From every state that any history leads to: of
a stream whose only sync pairs are those its frames begin with, the frames that begin
behind the first 65542 bytes, and maybe earlier ones, have their results, in order,
and in front of these there is one false result at most. Where the parser knows how
many bytes the frame in progress lacks, it is behind these. -/
theorem rejoins (hP : 17 ≤ P.sizeBits) {buffer : Option (List UInt8)} {capacity : Nat}
    (hbuf : BufferOk buffer capacity) {calls : List ParserCall} {returns : List ParserReturn}
    (hreach : Reaches P buffer capacity calls returns p) {segments : List Segment}
    (hencoded : AllEncoded P segments) (honly : OnlyStarts segments)
    {inputs : List (UInt8 × Option UbxFrame)}
    (hinputs : inputs.map Prod.fst = segments.flatMap Segment.bytes)
    (hframes : ∀ input ∈ inputs, input.2.isSome) :
    ∃ outs outs' p', run (feedStep P) (some p) inputs = .ok (outs ++ outs', some p') ∧
      outs.length ≤ 65542 ∧ (∀ n, p.owed = some n → outs.length = min n inputs.length) ∧
      (results (outs.map observe)).length ≤ 1 ∧
      results (outs'.map observe) = (fromByte outs.length segments).filterMap
        (Segment.result (capacityOf buffer capacity)) := by
  obtain ⟨start, hg, -⟩ := hreach.good hbuf
  obtain ⟨pending, hr⟩ := hg.rep hP
  obtain ⟨m, hm, howed, hone, hbefore, hafresh⟩ :=
    hunts_afresh p.payloadCapacity (inputs.map Prod.fst) pending hr.hunting_or
  rw [List.length_map] at hm howed
  obtain ⟨outs, p₁, hrun, ⟨-, hreports⟩, hr₁, hb₁, hcap₁⟩ :=
    run_follows hP hg.buffer hr (inputs.take m)
  obtain ⟨outs', p', hrun', ⟨-, hreports'⟩, -⟩ := run_follows hP hb₁ hr₁ (inputs.drop m)
  have hlen : outs.length = m := by
    rw [run_length hrun, List.length_take, Nat.min_eq_left hm]
  have hall := run_append hrun hrun'
  rw [List.take_append_drop] at hall
  refine ⟨outs, outs', p', hall, ?_, fun n hn => hlen.trans (howed n (hr.owes hn)), ?_, ?_⟩
  · -- in front of its last byte the frame in progress was still one
    cases m with
    | zero => exact hlen ▸ Nat.zero_le _
    | succ n =>
      obtain ⟨_, p₂, -, -, hr₂, -⟩ := run_follows hP hg.buffer hr (inputs.take n)
      have hgrown := hbefore n (Nat.lt_succ_self n)
      rw [← List.map_take] at hgrown
      have hbound := hr₂.length_le
      have hne : pending ≠ [] := by
        intro hnil
        have hzero := howed 0 (Or.inl ⟨hnil, rfl⟩)
        omega
      have hpos := List.length_pos_of_ne_nil hne
      rw [hgrown, List.length_append, List.length_map, List.length_take] at hbound
      omega
  · rw [hreports fun input h => hframes input (List.mem_of_mem_take h), List.map_take]
    exact hone
  · rw [hreports' fun input h => hframes input (List.mem_of_mem_drop h), hcap₁, List.map_take,
      List.map_drop, hafresh, hinputs, results_from (P := P) _ _ _ hencoded honly, hlen,
      hg.capacity_eq]

/-- In the middle of a payload of two bytes, and two frames. -/
theorem rejoins_second :
    ∃ outs outs' p', run (feedStep Platform.size32)
        (some ⟨.payload, some [9, 0], 2, 1, 5, 1, 2, 17, 44, 0, 0⟩)
        (feeds (frameBytes 5 1 [6, 0x8A] ++ frameBytes 5 0 [6, 0x8B]) (some ⟨0, 0, 0, none⟩))
          = .ok (outs ++ outs', some p') ∧
      outs.length = 3 ∧ (results (outs.map observe)).length ≤ 1 ∧
      results (outs'.map observe) = (fromByte outs.length
        [.encoded 5 1 [6, 0x8A] (frameBytes 5 1 [6, 0x8A]),
          .encoded 5 0 [6, 0x8B] (frameBytes 5 0 [6, 0x8B])]).filterMap (Segment.result 2) := by
  have hreach : Reaches Platform.size32 (some [0, 0]) 2
      ([0xB5, 0x62, 5, 1, 2, 0, 9].map fun b => .feed b none)
      (List.replicate 7 (.fed .inProgress none))
      ⟨.payload, some [9, 0], 2, 1, 5, 1, 2, 17, 44, 0, 0⟩ := ⟨zeroParser, rfl⟩
  have hencoded : AllEncoded Platform.size32 [.encoded 5 1 [6, 0x8A] (frameBytes 5 1 [6, 0x8A]),
      .encoded 5 0 [6, 0x8B] (frameBytes 5 0 [6, 0x8B])] := by
    intro c i payload bytes h
    rcases List.mem_cons.mp h with h | h
    · cases h
      exact encodes_frameBytes 5 1 (by simp) (by decide)
    · cases List.mem_singleton.mp h
      exact encodes_frameBytes 5 0 (by simp) (by decide)
  obtain ⟨outs, outs', p', hrun, -, howed, hone, hresults⟩ :=
    rejoins (by decide) twoCells_ok hreach hencoded (by decide)
      (map_fst_feeds _ (some ⟨0, 0, 0, none⟩)) (feeds_isSome _ _)
  exact ⟨outs, outs', p', hrun, howed 3 rfl, hone, hresults⟩

end Ubx.Stream
