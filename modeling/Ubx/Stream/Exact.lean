import Ubx.Stream.Encoder

/-!
# Exactness of the encoder

Every call of `ubx_encode_frame`, whatever it is given: `encoder_exact` says when
it returns OK, what the output holds then, cell by cell, and that nothing is
touched else. The checksum bytes are stated as sums of natural numbers
(`checksum_first`, `checksum_second`); the 8-bit additions of the C code compute
them modulo 256.
-/

namespace Ubx.Stream

open Lib

/-! ## The checksum as sums of numbers -/

section

open scoped UInt8.CommRing

theorem toNat_nsmul (n : ℕ) (x : UInt8) : (n • x).toNat = n * x.toNat % 256 := by
  have hcast : ((n : ℕ) : UInt8).toNat = n % 256 := UInt8.toNat_ofNat'
  rw [nsmul_eq_mul, UInt8.toNat_mul, hcast]
  exact Nat.mod_mul_mod ..

theorem toNat_sum (bytes : List UInt8) :
    bytes.sum.toNat = (bytes.map UInt8.toNat).sum % 256 := by
  induction bytes with
  | nil => rfl
  | cons byte bytes ih =>
    rw [List.sum_cons, UInt8.toNat_add, ih, List.map_cons, List.sum_cons]
    omega

theorem toNat_weighted (bytes : List UInt8) :
    (Fletcher.weighted bytes).toNat = Fletcher.weighted (bytes.map UInt8.toNat) % 256 := by
  induction bytes with
  | nil => rfl
  | cons byte bytes ih =>
    rw [Fletcher.weighted, UInt8.toNat_add, ih, toNat_nsmul, List.map_cons, Fletcher.weighted,
      List.length_map, smul_eq_mul]
    omega

/-- The first checksum byte: the sum of the bytes. -/
theorem checksum_first (bytes : List UInt8) :
    (Fletcher.sums bytes).1.toNat = (∑ j : Fin bytes.length, bytes[j.val].toNat) % 256 := by
  have hsums := congrArg Prod.fst (Fletcher.sums_eq bytes)
  rw [hsums, toNat_sum, Fin.sum_univ_fun_getElem]

/-- The second: the sum in which byte `j` of `n` counts `n - j` times. -/
theorem checksum_second (bytes : List UInt8) :
    (Fletcher.sums bytes).2.toNat
      = (∑ j : Fin bytes.length, (bytes.length - j.val) * bytes[j.val].toNat) % 256 := by
  have hsums := congrArg Prod.snd (Fletcher.sums_eq bytes)
  rw [hsums, toNat_weighted, Fletcher.weighted_map]
  rfl

end

/-! ## Every call -/

variable {P : Platform} {c i : UInt8} {source output : Option (List UInt8)}
  {len capacity n : Nat}

/-- When a call returns OK. -/
def Encodable (source output : Option (List UInt8)) (len capacity : Nat) : Prop :=
  output ≠ none ∧ (source ≠ none ∨ len = 0) ∧ len ≤ 65535 ∧ len + 8 ≤ capacity

/-- Where the frame's length does not wrap, that is when it passes the tests. -/
theorem admitted_iff (hfit : len ≤ 65535 → len + 8 < 2 ^ P.sizeBits) :
    Admitted P source output len capacity ↔ Encodable source output len capacity := by
  constructor
  · rintro ⟨houtput, hsource, hlen, hcap⟩
    rw [Platform.sizeAdd_eq (hfit hlen)] at hcap
    exact ⟨houtput, hsource, hlen, hcap⟩
  · rintro ⟨houtput, hsource, hlen, hcap⟩
    rw [← Platform.sizeAdd_eq (hfit hlen)] at hcap
    exact ⟨houtput, hsource, hlen, hcap⟩

/-- The bytes that a source supplies. -/
theorem supplies_source (hsource : ∀ payload, source = some payload → len ≤ payload.length)
    (h : source ≠ none ∨ len = 0) :
    ∃ payload, Supplies source payload ∧ payload.length = len ∧
      ∀ bytes, source = some bytes → payload = bytes.take len := by
  cases source with
  | none =>
    have hzero : len = 0 := by
      rcases h with h | h
      · exact absurd rfl h
      · exact h
    refine ⟨[], ?_, hzero.symm, by simp⟩
    intro j hj
    exact absurd hj (Nat.not_lt_zero j)
  | some bytes =>
    have hle := hsource bytes rfl
    refine ⟨bytes.take len, ?_, by rw [List.length_take, Nat.min_eq_left hle], ?_⟩
    · intro j hj
      rw [List.length_take] at hj
      rw [load_some (by omega), List.getElem_take]
    · intro bytes' hbytes
      rw [Option.some.inj hbytes]

/-- **Every call is exact.** With a `size_t` of at least 32 bits, a call returns
OK exactly when there is an output, the payload is there or empty, and the frame
fits. Then the front of the output is the frame, with the two sums of the bytes
from the class to the payload behind it, and the rest is what it was. Any other
call leaves 0 in `*output_length` and the output as it was. -/
theorem encoder_exact (P : Platform) (hP : 32 ≤ P.sizeBits) (c i : UInt8)
    (source output : Option (List UInt8)) (len capacity n : Nat)
    (hsource : ∀ payload, source = some payload → len ≤ payload.length)
    (houtput : ∀ cells, output = some cells → capacity ≤ cells.length) :
    ∃ r output' n', ubxEncodeFrame P c i source len output capacity (some n)
        = .ok (r, output', some n') ∧
      (r = .ok ↔ output ≠ none ∧ (source ≠ none ∨ len = 0) ∧ len ≤ 65535 ∧ len + 8 ≤ capacity) ∧
      (r = .ok → ∃ (cells payload body : List UInt8) (sumA sumB : UInt8), output = some cells ∧
        payload.length = len ∧ (∀ bytes, source = some bytes → payload = bytes.take len) ∧
        body = [c, i] ++ leBytes 2 len ++ payload ∧
        sumA.toNat = (∑ j : Fin body.length, body[j.val].toNat) % 256 ∧
        sumB.toNat = (∑ j : Fin body.length, (body.length - j.val) * body[j.val].toNat) % 256 ∧
        n' = len + 8 ∧
        output' = some ([0xB5, 0x62] ++ body ++ [sumA, sumB] ++ cells.drop (len + 8))) ∧
      (r ≠ .ok → n' = 0 ∧ output' = output) := by
  have hfit : len ≤ 65535 → len + 8 < 2 ^ P.sizeBits := by
    intro hlen
    exact Nat.lt_of_lt_of_le (show len + 8 < 2 ^ 32 by omega)
      (Nat.pow_le_pow_right Nat.two_pos hP)
  by_cases h : Encodable source output len capacity
  · obtain ⟨hthere, hpayload, hlen, hcap⟩ := h
    obtain ⟨cells, rfl⟩ := Option.ne_none_iff_exists'.mp hthere
    obtain ⟨payload, hsupplies, rfl, hbytes⟩ := supplies_source hsource hpayload
    have hrun := @ubxEncodeFrame_ok P c i source payload cells capacity n hsupplies hlen
      (hfit hlen) hcap (houtput cells rfl)
    refine ⟨_, _, _, hrun, ?_, ?_, fun hr => absurd rfl hr⟩
    · exact ⟨fun _ => ⟨hthere, hpayload, hlen, hcap⟩, fun _ => rfl⟩
    · intro _
      refine ⟨cells, payload, frameBody c i payload, _, _, rfl, rfl, hbytes, rfl,
        checksum_first _, checksum_second _, rfl, ?_⟩
      rw [written, length_frameBytes]
      rfl
  · obtain ⟨r, hr, hrun⟩ := ubxEncodeFrame_refuses (c := c) (i := i) (n := n)
      (mt (admitted_iff hfit).mp h)
    refine ⟨r, output, 0, hrun, ?_, fun hok => absurd hok hr, fun _ => ⟨rfl, rfl⟩⟩
    exact ⟨fun hok => absurd hok hr, fun hencodable => absurd hencodable h⟩

/-- Two payload bytes into ten cells with one more behind them. -/
theorem encoder_exact_two :
    ∃ r output' n', ubxEncodeFrame Platform.size32 6 1 (some [200, 100]) 2
        (some (List.replicate 11 7)) 10 (some 5) = .ok (r, output', some n') ∧
      (r = .ok ↔ (some (List.replicate 11 7) : Option (List UInt8)) ≠ none ∧
        ((some [200, 100] : Option (List UInt8)) ≠ none ∨ 2 = 0) ∧ 2 ≤ 65535 ∧ 2 + 8 ≤ 10) := by
  obtain ⟨r, output', n', hrun, hiff, -⟩ :=
    encoder_exact Platform.size32 (Nat.le_refl 32) 6 1 (some [200, 100])
      (some (List.replicate 11 7)) 2 10 5 (by simp) (by simp)
  exact ⟨r, output', n', hrun, hiff⟩

end Ubx.Stream
