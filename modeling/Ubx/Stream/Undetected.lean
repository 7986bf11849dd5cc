import Ubx.Stream.Frames

/-!
# What the checksum lets through

`Frames` says which changes of a frame are always detected. Here is the whole
truth about the others: a frame changed anywhere but in its sync pair and its
length is reported exactly when the change is a frame's body with its own
checksum (`undetected_exactly`); and two changed bytes are let through exactly
when they cancel in the plain sum and their distance, times either, is a
multiple of 256 (`two_undetected`). Two top bits an even number of bytes apart
are the first of these.
-/

namespace Ubx.Stream

open Lib

variable {P : Platform} {p : UbxParser}

/-- Byte by byte, what was added to a frame. -/
def changes (altered bytes : List UInt8) : List UInt8 := List.zipWith (· - ·) altered bytes

/-- A change of a frame of payload length `n` that is a body with its own checksum. -/
def ChecksItself (n : Nat) (change : List UInt8) : Prop :=
  change.drop (n + 6) = [(Fletcher.sums ((change.take (n + 6)).drop 2)).1,
    (Fletcher.sums ((change.take (n + 6)).drop 2)).2]

/-- A frame with its sync pair and length left alone. -/
def SameShape (bytes altered : List UInt8) : Prop :=
  altered.length = bytes.length ∧ ∀ k ∈ [0, 1, 4, 5], altered[k]? = bytes[k]?

/-! ## Frames of one shape -/

/-- The parser's last report on such a frame is its own checksum's. -/
theorem assembleAll_judged {capacity : Nat} (c i : UInt8) {payload : List UInt8}
    (hlen : payload.length ≤ 65535) (hfit : payload.length ≤ capacity) (a b : UInt8) :
    ∃ report, assembleAll capacity [] ([0xB5, 0x62] ++ frameBody c i payload ++ [a, b])
        = (List.replicate (payload.length + 7) .inProgress ++ [report], []) ∧
      report ≠ .oversize ∧
      (Fletcher.sums (frameBody c i payload) = (a, b) → report
        = .frameComplete (some ⟨c, i, UInt16.ofNat payload.length, payload⟩)) ∧
      (Fletcher.sums (frameBody c i payload) ≠ (a, b) → report = .checksumError) := by
  by_cases hsums : Fletcher.sums (frameBody c i payload) = (a, b)
  · have hbytes : [0xB5, 0x62] ++ frameBody c i payload ++ [a, b] = frameBytes c i payload := by
      rw [frameBytes, hsums]
    refine ⟨_, ?_, ?_, fun _ => rfl, fun hne => absurd hsums hne⟩
    · rw [hbytes, assembleAll_encoded capacity (Or.inl rfl) c i hlen, frameReports_fits hfit]
    · simp
  · obtain ⟨h2, h3⟩ := frameBody_lengths c i payload
    exact ⟨.checksumError, assembleAll_bad hlen (length_frameBody c i payload) h2 h3 hfit hsums,
      by simp, fun heq => absurd heq hsums, fun _ => rfl⟩

/-- What a parser that hunts answers such a frame with. -/
theorem run_judged (hb : BufferInv p) (hs : p.state = .sync1) {c i : UInt8}
    {payload : List UInt8} (hlen : payload.length ≤ 65535)
    (hfit : payload.length ≤ p.payloadCapacity) {a b : UInt8}
    {inputs : List (UInt8 × Option UbxFrame)}
    (hinputs : inputs.map Prod.fst = [0xB5, 0x62] ++ frameBody c i payload ++ [a, b]) :
    ∃ outs p' last, run (feedStep P) (some p) inputs = .ok (outs, some p') ∧
      outs.map Prod.fst = List.replicate (payload.length + 7) .inProgress ++ [last] ∧
      ((last = .frameComplete ∧ Fletcher.sums (frameBody c i payload) = (a, b)) ∨
        (last = .checksumError ∧ Fletcher.sums (frameBody c i payload) ≠ (a, b))) ∧
      p'.state = .sync1 := by
  obtain ⟨report, htrace, hreport, hgood, hbad⟩ := assembleAll_judged c i hlen hfit a b
  rw [← hinputs] at htrace
  obtain ⟨outs, p', hrun, ⟨hcodes, -⟩, hs'⟩ := run_last_report (P := P) hb hs hreport htrace
  rw [List.map_append, List.map_replicate] at hcodes
  refine ⟨outs, p', report.code, hrun, hcodes, ?_, hs'⟩
  by_cases hsums : Fletcher.sums (frameBody c i payload) = (a, b)
  · exact Or.inl ⟨by rw [hgood hsums]; rfl, hsums⟩
  · exact Or.inr ⟨by rw [hbad hsums]; rfl, hsums⟩

/-- A frame of the same shape has a body of the same length. -/
theorem SameShape.frame {c i : UInt8} {payload altered : List UInt8}
    (h : SameShape (frameBytes c i payload) altered) :
    ∃ c' i' payload' a b, payload'.length = payload.length ∧
      altered = [0xB5, 0x62] ++ frameBody c' i' payload' ++ [a, b] := by
  obtain ⟨hlen, hkept⟩ := h
  rw [length_frameBytes] at hlen
  have h0 := hkept 0 (by simp)
  have h1 := hkept 1 (by simp)
  have h4 := hkept 4 (by simp)
  have h5 := hkept 5 (by simp)
  match altered, hlen, h0, h1, h4, h5 with
  | x0 :: x1 :: c' :: i' :: x4 :: x5 :: tail, hlen, h0, h1, h4, h5 =>
    cases h0
    cases h1
    cases h4
    cases h5
    have htail : tail.length = payload.length + 2 := by
      simp only [List.length_cons] at hlen
      omega
    obtain ⟨a, b, hab⟩ := List.length_eq_two.mp
      (show (tail.drop payload.length).length = 2 by rw [List.length_drop]; omega)
    have htake : (tail.take payload.length).length = payload.length := by
      rw [List.length_take]
      omega
    refine ⟨c', i', tail.take payload.length, a, b, htake, ?_⟩
    rw [frameBody, htake, ← hab, List.append_assoc, List.append_assoc, List.take_append_drop]
    rfl

open scoped UInt8.CommRing in
/-- Its change checks itself where its own sums are its checksum. -/
theorem checksItself_iff {c i c' i' : UInt8} {payload payload' : List UInt8}
    (hsame : payload'.length = payload.length) (a b : UInt8) :
    ChecksItself payload.length
        (changes ([0xB5, 0x62] ++ frameBody c' i' payload' ++ [a, b]) (frameBytes c i payload))
      ↔ Fletcher.sums (frameBody c' i' payload') = (a, b) := by
  have hbodies : (frameBody c' i' payload').length = (frameBody c i payload).length := by
    rw [length_frameBody, length_frameBody, hsame]
  have hchange : changes ([0xB5, 0x62] ++ frameBody c' i' payload' ++ [a, b])
      (frameBytes c i payload)
        = [0, 0] ++ List.zipWith (· - ·) (frameBody c' i' payload') (frameBody c i payload)
          ++ [a - (Fletcher.sums (frameBody c i payload)).1,
            b - (Fletcher.sums (frameBody c i payload)).2] := by
    rw [changes, frameBytes, List.zipWith_append (by simp [hbodies]), List.zipWith_append rfl]
    rfl
  have hfront : ([0, 0] ++ List.zipWith (· - ·) (frameBody c' i' payload')
      (frameBody c i payload)).length = payload.length + 6 := by
    rw [List.length_append, List.length_zipWith, hbodies, Nat.min_self, length_frameBody]
    exact Nat.add_comm ..
  rw [ChecksItself, hchange, List.drop_left' hfront, List.take_left' hfront]
  show [_, _] = [(Fletcher.sums (List.zipWith _ _ _)).1, (Fletcher.sums (List.zipWith _ _ _)).2] ↔ _
  rw [Fletcher.sums_sub hbodies]
  simp only [List.cons.injEq, sub_left_inj, and_true, Prod.ext_iff]
  exact and_congr eq_comm eq_comm

/-! ## What is let through -/

/-- **What the checksum lets through.** A frame changed anywhere but in its sync
pair and length is answered with `FRAME_COMPLETE` at its last byte when its
change is a body with its own checksum, and with `CHECKSUM_ERROR` otherwise. -/
theorem undetected_exactly (hb : BufferInv p) (hs : p.state = .sync1) {c i : UInt8}
    {payload bytes altered : List UInt8} (henc : Encodes P c i payload bytes)
    (hfit : payload.length ≤ p.payloadCapacity) (hshape : SameShape bytes altered)
    {inputs : List (UInt8 × Option UbxFrame)} (hinputs : inputs.map Prod.fst = altered) :
    ∃ outs p' last, run (feedStep P) (some p) inputs = .ok (outs, some p') ∧
      outs.map Prod.fst = List.replicate (payload.length + 7) .inProgress ++ [last] ∧
      (last = .frameComplete ↔ ChecksItself payload.length (changes altered bytes)) ∧
      (last = .checksumError ↔ ¬ ChecksItself payload.length (changes altered bytes)) ∧
      p'.state = .sync1 := by
  obtain ⟨hlen, rfl⟩ := encodes_eq henc
  obtain ⟨c', i', payload', a, b, hsame, rfl⟩ := hshape.frame
  rw [← hsame] at hlen hfit
  obtain ⟨outs, p', last, hrun, hcodes, hlast, hs'⟩ :=
    run_judged (P := P) hb hs hlen hfit hinputs
  rw [hsame] at hcodes
  refine ⟨outs, p', last, hrun, hcodes, ?_, ?_, hs'⟩
  · rw [checksItself_iff hsame]
    rcases hlast with ⟨rfl, hsums⟩ | ⟨rfl, hsums⟩
    · simp [hsums]
    · simp [hsums]
  · rw [checksItself_iff hsame]
    rcases hlast with ⟨rfl, hsums⟩ | ⟨rfl, hsums⟩
    · simp [hsums]
    · simp [hsums]

/-- A class and a payload byte four bytes behind it, 64 apart from what they were. -/
theorem undetected_exactly_class :
    ∃ outs p', run (feedStep Platform.size32) (some zeroParser)
        (feeds (((frameBytes 5 1 [0x2A, 7]).set 2 0x45).set 6 0xEA) none) = .ok (outs, some p') ∧
      outs.map Prod.fst = List.replicate 9 .inProgress ++ [.frameComplete] := by
  have hlen : [0x2A, (7 : UInt8)].length ≤ 65535 := by simp
  have hshape : SameShape (frameBytes 5 1 [0x2A, 7])
      (((frameBytes 5 1 [0x2A, 7]).set 2 0x45).set 6 0xEA) := by
    refine ⟨rfl, ?_⟩
    simp [frameBytes, frameBody]
  obtain ⟨outs, p', last, hrun, hcodes, hlast, -⟩ := undetected_exactly (P := Platform.size32)
    zeroParser_buffer rfl (encodes_frameBytes 5 1 hlen (by decide)) (Nat.le_refl 2) hshape
    (map_fst_feeds _ none)
  obtain rfl := hlast.mpr rfl
  exact ⟨outs, p', hrun, hcodes⟩

/-- Two changed bytes change the frame and not its shape. -/
theorem sameShape_set_set {bytes : List UInt8} {n j k : Nat} (hj : BodyPosition n j)
    (hk : BodyPosition n k) (x y : UInt8) : SameShape bytes ((bytes.set j x).set k y) := by
  refine ⟨by rw [List.length_set, List.length_set], ?_⟩
  intro m hm
  have hne : ∀ l, BodyPosition n l → l ≠ m := by
    rintro l hl rfl
    obtain ⟨l', rfl, -, h2, h3⟩ := hl.index
    simp only [List.mem_cons, List.not_mem_nil, or_false] at hm
    omega
  rw [List.getElem?_set_ne (hne k hk), List.getElem?_set_ne (hne j hj)]

open scoped UInt8.CommRing in
/-- Two changed bytes that leave the sums of a body as they were. -/
theorem sums_set_set_same {body : List UInt8} {m m' : Nat} {x y x₀ y₀ : UInt8} (hlt : m < m')
    (hx : body[m]? = some x₀) (hy : body[m']? = some y₀) :
    Fletcher.sums ((body.set m x).set m' y) = Fletcher.sums body ↔
      x + y = x₀ + y₀ ∧ 256 ∣ (m' - m) * (x - x₀).toNat := by
  obtain ⟨hm', rfl⟩ := List.getElem?_eq_some_iff.mp hy
  obtain ⟨hm, rfl⟩ := List.getElem?_eq_some_iff.mp hx
  have hdistance : ((m' - m : ℕ) : UInt8) * (x - body[m]) = 0
      ↔ 256 ∣ (m' - m) * (x - body[m]).toNat := by
    rw [← UInt8.toNat_inj, UInt8.toNat_mul]
    show (UInt8.ofNat (m' - m)).toNat * _ % 2 ^ 8 = 0 ↔ _
    rw [UInt8.toNat_ofNat', Nat.mod_mul_mod]
    exact Nat.dvd_iff_mod_eq_zero.symm
  rw [Fletcher.sums_set_set_iff hlt hm', hdistance]
  refine and_congr_left fun _ => ?_
  constructor
  · intro h
    linear_combination h
  · intro h
    linear_combination h

/-- **Two changed bytes are let through** exactly when they add up to what they
added up to before, and their distance times the change is a multiple of 256. -/
theorem two_undetected (hb : BufferInv p) (hs : p.state = .sync1) {c i : UInt8}
    {payload bytes : List UInt8} (henc : Encodes P c i payload bytes)
    (hfit : payload.length ≤ p.payloadCapacity) {j k : Nat} {x y x₀ y₀ : UInt8}
    (hj : BodyPosition payload.length j) (hk : BodyPosition payload.length k) (hjk : j < k)
    (hx : bytes[j]? = some x₀) (hy : bytes[k]? = some y₀)
    {inputs : List (UInt8 × Option UbxFrame)}
    (hinputs : inputs.map Prod.fst = (bytes.set j x).set k y) :
    ∃ outs p' last, run (feedStep P) (some p) inputs = .ok (outs, some p') ∧
      outs.map Prod.fst = List.replicate (payload.length + 7) .inProgress ++ [last] ∧
      (last = .frameComplete ↔ x + y = x₀ + y₀ ∧ 256 ∣ (k - j) * (x - x₀).toNat) ∧
      (last = .checksumError ↔ ¬(x + y = x₀ + y₀ ∧ 256 ∣ (k - j) * (x - x₀).toNat)) ∧
      p'.state = .sync1 := by
  obtain ⟨hlen, rfl⟩ := encodes_eq henc
  have hshape := @sameShape_set_set (frameBytes c i payload) _ _ _ hj hk x y
  obtain ⟨c', i', payload', a, b, hsame, hframe⟩ := hshape.frame
  obtain ⟨m, rfl, hm, -⟩ := hj.index
  obtain ⟨m', rfl, hm', -⟩ := hk.index
  rw [← length_frameBody c i payload] at hm hm'
  have hinputs' := hinputs.trans hframe
  -- the changed body is the body changed, and the checksum is the frame's
  unfold frameBytes at hframe hx hy
  rw [frame_getElem? hm] at hx
  rw [frame_getElem? hm'] at hy
  rw [frame_set hm, frame_set (by rwa [List.length_set])] at hframe
  obtain ⟨hfront, htail⟩ := List.append_inj hframe (by
    simp only [List.length_append, List.length_set, length_frameBody, hsame])
  have hbody := List.append_cancel_left hfront
  have hsums : (a, b) = Fletcher.sums (frameBody c i payload) := by
    simp only [List.cons.injEq, and_true] at htail
    exact Prod.ext htail.1.symm htail.2.symm
  have hiff := @sums_set_set_same _ m m' x y _ _ (by omega) hx hy
  rw [hbody, ← hsums] at hiff
  rw [← hsame] at hlen hfit
  obtain ⟨outs, p', last, hrun, hcodes, hlast, hs'⟩ :=
    run_judged (P := P) hb hs hlen hfit hinputs'
  rw [hsame] at hcodes
  rw [Nat.add_sub_add_right, ← hiff]
  refine ⟨outs, p', last, hrun, hcodes, ?_, ?_, hs'⟩
  · rcases hlast with ⟨rfl, hsums⟩ | ⟨rfl, hsums⟩
    · simp [hsums]
    · simp [hsums]
  · rcases hlast with ⟨rfl, hsums⟩ | ⟨rfl, hsums⟩
    · simp [hsums]
    · simp [hsums]

/-- The top bits of two payload bytes, one byte apart from each other. -/
theorem two_undetected_top :
    ∃ outs p', run (feedStep Platform.size32)
        (some ⟨.sync1, some [0, 0, 0], 3, 0, 0, 0, 0, 0, 0, 0, 0⟩)
        (feeds (((frameBytes 5 1 [0x12, 7, 0x34]).set 6 0x92).set 8 0xB4) none)
          = .ok (outs, some p') ∧
      outs.map Prod.fst = List.replicate 10 .inProgress ++ [.frameComplete] := by
  have hlen : [0x12, 7, (0x34 : UInt8)].length ≤ 65535 := by simp
  have hposition : ∀ k, 6 ≤ k → k < 9 → BodyPosition 3 k := fun k h6 h9 => Or.inr (Or.inr ⟨h6, h9⟩)
  have hbuffer : BufferInv ⟨.sync1, some [0, 0, 0], 3, 0, 0, 0, 0, 0, 0, 0, 0⟩ := by
    constructor
    · simp
    · simp
  obtain ⟨outs, p', last, hrun, hcodes, hlast, -⟩ := two_undetected (P := Platform.size32)
    hbuffer rfl
    (encodes_frameBytes 5 1 hlen (by decide)) (Nat.le_refl 3)
    (hposition 6 (by simp) (by simp)) (hposition 8 (by simp) (by simp)) (by simp) rfl rfl
    (map_fst_feeds (((frameBytes 5 1 [0x12, 7, 0x34]).set 6 0x92).set 8 0xB4) none)
  obtain rfl := hlast.mpr ⟨rfl, Nat.dvd_refl 256⟩
  exact ⟨outs, p', hrun, hcodes⟩

end Ubx.Stream
