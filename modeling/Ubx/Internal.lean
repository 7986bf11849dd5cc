import Mathlib.Data.Int.GCD
import Mathlib.Data.Nat.Prime.Basic
import Mathlib.Data.UInt
import Ubx.Lib.Memory
import Ubx.Lib.LittleEndian
import Ubx.Lib.Fletcher

/-!
# The shared helpers of `src/ubx_internal.h`

Checksum update and little-endian access, as the C functions compute them: a
pointer argument is the object it refers to and an offset into it, and every
byte goes through a checked `load` or `store`.

Each reader has one spec lemma, `ubxRead…_ok`, that gives the value it returns
when its bytes are in bounds, as the `leValue` of those bytes; each writer has
one, `ubxWrite…_eq`, that makes it a run of stores of `leBytes`. Nothing above
this file unfolds a reader or a writer.

`Platform` is the part of the C implementation the code depends on: the width
of `size_t`. All sums the code forms in `size_t` go through `sizeAdd`.
-/

namespace Ubx

open Lib

/-- The C implementation: the width of its `size_t`, at least the 16 bits that
C requires. -/
structure Platform where
  sizeBits : Nat
  sizeBits_ge : 16 ≤ sizeBits

/-- A sum in `size_t`. -/
def Platform.sizeAdd (P : Platform) (a b : Nat) : Nat := (a + b) % 2 ^ P.sizeBits

/-- A 32-bit `size_t`, for the examples. -/
def Platform.size32 : Platform := ⟨32, by simp⟩

/-- The narrowest `size_t` there is. -/
def Platform.size16 : Platform := ⟨16, Nat.le_refl 16⟩

/-- `size_t` has every number of 16 bits. -/
theorem Platform.two_pow_ge (P : Platform) : 2 ^ 16 ≤ 2 ^ P.sizeBits :=
  Nat.pow_le_pow_right Nat.two_pos P.sizeBits_ge

/-- A sum that fits is not reduced. -/
theorem Platform.sizeAdd_eq {P : Platform} {a b : Nat} (h : a + b < 2 ^ P.sizeBits) :
    P.sizeAdd a b = a + b :=
  Nat.mod_eq_of_lt h

/-- Sums that fit 16 bits never wrap. -/
theorem Platform.sizeAdd_small (P : Platform) {a b : Nat} (h : a + b < 2 ^ 16) :
    P.sizeAdd a b = a + b :=
  sizeAdd_eq (Nat.lt_of_lt_of_le h P.two_pow_ge)

/-- Nor do sums that fit 17 bits where `size_t` is wider than 16. -/
theorem Platform.sizeAdd_wide {P : Platform} (hP : 17 ≤ P.sizeBits) {a b : Nat}
    (h : a + b < 2 ^ 17) : P.sizeAdd a b = a + b :=
  sizeAdd_eq (Nat.lt_of_lt_of_le h (Nat.pow_le_pow_right Nat.two_pos hP))

/-- A sum that wraps once. -/
theorem Platform.sizeAdd_wraps {P : Platform} {a b : Nat} (hle : 2 ^ P.sizeBits ≤ a + b)
    (hlt : a + b < 2 ^ P.sizeBits + 2 ^ P.sizeBits) :
    P.sizeAdd a b = a + b - 2 ^ P.sizeBits := by
  rw [Platform.sizeAdd, Nat.mod_eq_sub_mod hle]
  apply Nat.mod_eq_of_lt
  omega

/-! ## Checksum -/

/-- `ubx_checksum_update`: the two running sums after one more byte. -/
def ubxChecksumUpdate (checksum : UInt8 × UInt8) (byte : UInt8) : UInt8 × UInt8 :=
  let checksumA := checksum.1 + byte
  let checksumB := checksum.2 + checksumA
  (checksumA, checksumB)

/-- The C update is Fletcher's step over the bytes modulo 256. -/
theorem ubxChecksumUpdate_sums (bytes : List UInt8) (byte : UInt8) :
    ubxChecksumUpdate (Fletcher.sums bytes) byte = Fletcher.sums (bytes ++ [byte]) :=
  (Fletcher.sums_append_singleton bytes byte).symm

open scoped UInt8.CommRing in
/-- An odd distance is invertible modulo 256. -/
theorem isUnit_of_odd {n : Nat} (h : n % 2 = 1) : IsUnit ((n : ℕ) : UInt8) := by
  have htwo : Nat.Coprime 2 n := (Nat.Prime.coprime_iff_not_dvd Nat.prime_two).mpr (by omega)
  have hcop : Nat.Coprime n (2 ^ 8) := Nat.Coprime.pow_right 8 htwo.symm
  obtain ⟨m, -, hm⟩ := Nat.exists_mul_mod_eq_one_of_coprime hcop (by simp)
  refine IsUnit.of_mul_eq_one ((m : ℕ) : UInt8) ?_
  rw [← Nat.cast_mul]
  apply UInt8.toNat_inj.mp
  show (UInt8.ofNat (n * m)).toNat = 1
  rw [UInt8.toNat_ofNat', hm]

/-! ## Readers -/

/-- `ubx_read_u16_le`. -/
def ubxReadU16Le (data : Option (List UInt8)) (offset : Nat) : Run UInt16 := do
  let b0 ← load data offset
  let b1 ← load data (offset + 1)
  return b0.toUInt16 ||| (b1.toUInt16 <<< 8)

/-- `ubx_read_u32_le`. -/
def ubxReadU32Le (data : Option (List UInt8)) (offset : Nat) : Run UInt32 := do
  let b0 ← load data offset
  let b1 ← load data (offset + 1)
  let b2 ← load data (offset + 2)
  let b3 ← load data (offset + 3)
  return b0.toUInt32 ||| (b1.toUInt32 <<< 8) ||| (b2.toUInt32 <<< 16) ||| (b3.toUInt32 <<< 24)

/-- `ubx_read_u64_le`. -/
def ubxReadU64Le (data : Option (List UInt8)) (offset : Nat) : Run UInt64 := do
  let b0 ← load data offset
  let b1 ← load data (offset + 1)
  let b2 ← load data (offset + 2)
  let b3 ← load data (offset + 3)
  let b4 ← load data (offset + 4)
  let b5 ← load data (offset + 5)
  let b6 ← load data (offset + 6)
  let b7 ← load data (offset + 7)
  return b0.toUInt64 ||| (b1.toUInt64 <<< 8) ||| (b2.toUInt64 <<< 16) ||| (b3.toUInt64 <<< 24)
    ||| (b4.toUInt64 <<< 32) ||| (b5.toUInt64 <<< 40) ||| (b6.toUInt64 <<< 48)
    ||| (b7.toUInt64 <<< 56)

/-- `ubx_read_r4_le`: the `float` is its bit pattern. -/
def ubxReadR4Le (data : Option (List UInt8)) (offset : Nat) : Run UInt32 :=
  ubxReadU32Le data offset

/-- `ubx_read_r8_le`: the `double` is its bit pattern. -/
def ubxReadR8Le (data : Option (List UInt8)) (offset : Nat) : Run UInt64 :=
  ubxReadU64Le data offset

/-- `ubx_read_i16_le`: past `INT16_MAX` the value is `(int32_t)value - 65536`. -/
def ubxReadI16Le (data : Option (List UInt8)) (offset : Nat) : Run Int16 := do
  let value ← ubxReadU16Le data offset
  if value ≤ 32767 then
    return Int16.ofInt value.toNat
  return Int16.ofInt ((value.toNat : Int) - 65536)

/-- `ubx_read_i32_le`: past `INT32_MAX` the value is `(int64_t)value - 4294967296`. -/
def ubxReadI32Le (data : Option (List UInt8)) (offset : Nat) : Run Int32 := do
  let value ← ubxReadU32Le data offset
  if value ≤ 2147483647 then
    return Int32.ofInt value.toNat
  return Int32.ofInt ((value.toNat : Int) - 4294967296)

/-- `ubx_read_i8`: past `INT8_MAX` the value is `(int16_t)value - 256`. -/
def ubxReadI8 (data : Option (List UInt8)) (offset : Nat) : Run Int8 := do
  let value ← load data offset
  if value ≤ 127 then
    return Int8.ofInt value.toNat
  return Int8.ofInt ((value.toNat : Int) - 256)

/-- What the 16-bit reader forms of two bytes is their value. -/
theorem or16 (b0 b1 : UInt8) :
    b0.toUInt16 ||| (b1.toUInt16 <<< 8) = UInt16.ofNat (leValue [b0, b1]) := by
  have h0 := b0.toNat_lt
  have h1 := b1.toNat_lt
  have e1 : (b1.toUInt16 <<< 8).toNat = b1.toNat <<< 8 := by
    rw [UInt16.toNat_shiftLeft, UInt8.toNat_toUInt16]
    apply Nat.mod_eq_of_lt
    rw [Nat.shiftLeft_eq]
    show b1.toNat * 2 ^ 8 < _
    omega
  apply UInt16.toNat_inj.mp
  rw [UInt16.toNat_or, e1, UInt8.toNat_toUInt16, shift_or_eq _ _ 8 (by omega),
    UInt16.toNat_ofNat']
  simp only [leValue_cons, leValue_nil]
  omega

/-- A byte shifted inside a 32-bit word. -/
theorem shl32 (b : UInt8) (k : UInt32) (hk : k.toNat ≤ 24) :
    (b.toUInt32 <<< k).toNat = b.toNat <<< k.toNat := by
  have hb := b.toNat_lt
  rw [UInt32.toNat_shiftLeft, UInt8.toNat_toUInt32, Nat.mod_eq_of_lt (by omega : k.toNat < 32)]
  apply Nat.mod_eq_of_lt
  rw [Nat.shiftLeft_eq]
  calc b.toNat * 2 ^ k.toNat ≤ b.toNat * 2 ^ 24 :=
        Nat.mul_le_mul_left _ (Nat.pow_le_pow_right Nat.two_pos hk)
    _ < 2 ^ 32 := by omega

/-- A byte shifted inside a 64-bit word. -/
theorem shl64 (b : UInt8) (k : UInt64) (hk : k.toNat ≤ 56) :
    (b.toUInt64 <<< k).toNat = b.toNat <<< k.toNat := by
  have hb := b.toNat_lt
  rw [UInt64.toNat_shiftLeft, UInt8.toNat_toUInt64, Nat.mod_eq_of_lt (by omega : k.toNat < 64)]
  apply Nat.mod_eq_of_lt
  rw [Nat.shiftLeft_eq]
  calc b.toNat * 2 ^ k.toNat ≤ b.toNat * 2 ^ 56 :=
        Nat.mul_le_mul_left _ (Nat.pow_le_pow_right Nat.two_pos hk)
    _ < 2 ^ 64 := by omega

/-- So it is with four bytes. -/
theorem or32 (b0 b1 b2 b3 : UInt8) :
    b0.toUInt32 ||| (b1.toUInt32 <<< 8) ||| (b2.toUInt32 <<< 16) ||| (b3.toUInt32 <<< 24)
      = UInt32.ofNat (leValue [b0, b1, b2, b3]) := by
  have h0 := b0.toNat_lt
  have h1 := b1.toNat_lt
  have h2 := b2.toNat_lt
  have h3 := b3.toNat_lt
  apply UInt32.toNat_inj.mp
  simp only [UInt32.toNat_or]
  rw [shl32 b1 8 (by simp), shl32 b2 16 (by simp), shl32 b3 24 (by simp),
    UInt8.toNat_toUInt32, UInt32.toNat_ofNat']
  simp only [UInt32.reduceToNat]
  rw [shift_or_eq _ _ 8 (by omega), shift_or_eq _ _ 16 (by omega), shift_or_eq _ _ 24 (by omega)]
  simp only [leValue_cons, leValue_nil]
  omega

/-- And with eight. -/
theorem or64 (b0 b1 b2 b3 b4 b5 b6 b7 : UInt8) :
    b0.toUInt64 ||| (b1.toUInt64 <<< 8) ||| (b2.toUInt64 <<< 16) ||| (b3.toUInt64 <<< 24)
        ||| (b4.toUInt64 <<< 32) ||| (b5.toUInt64 <<< 40) ||| (b6.toUInt64 <<< 48)
        ||| (b7.toUInt64 <<< 56)
      = UInt64.ofNat (leValue [b0, b1, b2, b3, b4, b5, b6, b7]) := by
  have h0 := b0.toNat_lt
  have h1 := b1.toNat_lt
  have h2 := b2.toNat_lt
  have h3 := b3.toNat_lt
  have h4 := b4.toNat_lt
  have h5 := b5.toNat_lt
  have h6 := b6.toNat_lt
  have h7 := b7.toNat_lt
  apply UInt64.toNat_inj.mp
  simp only [UInt64.toNat_or]
  rw [shl64 b1 8 (by simp), shl64 b2 16 (by simp), shl64 b3 24 (by simp),
    shl64 b4 32 (by simp), shl64 b5 40 (by simp), shl64 b6 48 (by simp),
    shl64 b7 56 (by simp), UInt8.toNat_toUInt64, UInt64.toNat_ofNat']
  simp only [UInt64.reduceToNat]
  rw [shift_or_eq _ _ 8 (by omega), shift_or_eq _ _ 16 (by omega), shift_or_eq _ _ 24 (by omega),
    shift_or_eq _ _ 32 (by omega), shift_or_eq _ _ 40 (by omega), shift_or_eq _ _ 48 (by omega),
    shift_or_eq _ _ 56 (by omega)]
  simp only [leValue_cons, leValue_nil]
  omega

/-! ## What the readers return -/

theorem take_two {cells : List UInt8} {i : Nat} (h : i + 2 ≤ cells.length) :
    (cells.drop i).take 2 = [cells[i], cells[i + 1]] := by
  rw [List.drop_eq_getElem_cons (by omega), List.drop_eq_getElem_cons (by omega)]
  rfl

theorem take_four {cells : List UInt8} {i : Nat} (h : i + 4 ≤ cells.length) :
    (cells.drop i).take 4 = [cells[i], cells[i + 1], cells[i + 2], cells[i + 3]] := by
  rw [List.drop_eq_getElem_cons (by omega), List.drop_eq_getElem_cons (by omega),
    List.drop_eq_getElem_cons (by omega), List.drop_eq_getElem_cons (by omega)]
  rfl

/-- **A reader in bounds** returns the value of the bytes at its offset. -/
theorem ubxReadU16Le_ok {cells : List UInt8} {offset : Nat} (h : offset + 2 ≤ cells.length) :
    ubxReadU16Le (some cells) offset
      = .ok (UInt16.ofNat (leValue ((cells.drop offset).take 2))) := by
  rw [take_two h, ← or16, ubxReadU16Le, load_some (by omega), load_some (by omega)]
  rfl

theorem ubxReadU32Le_ok {cells : List UInt8} {offset : Nat} (h : offset + 4 ≤ cells.length) :
    ubxReadU32Le (some cells) offset
      = .ok (UInt32.ofNat (leValue ((cells.drop offset).take 4))) := by
  rw [take_four h, ← or32, ubxReadU32Le, load_some (by omega), load_some (by omega),
    load_some (by omega), load_some (by omega)]
  rfl

theorem ubxReadU64Le_ok {cells : List UInt8} {offset : Nat} (h : offset + 8 ≤ cells.length) :
    ubxReadU64Le (some cells) offset
      = .ok (UInt64.ofNat (leValue ((cells.drop offset).take 8))) := by
  have htake : (cells.drop offset).take 8 = [cells[offset], cells[offset + 1],
      cells[offset + 2], cells[offset + 3], cells[offset + 4], cells[offset + 5],
      cells[offset + 6], cells[offset + 7]] := by
    rw [show 8 = 4 + 4 from rfl, List.take_add, take_four (by omega), List.drop_drop,
      take_four (by omega)]
    rfl
  rw [htake, ← or64, ubxReadU64Le, load_some (by omega), load_some (by omega),
    load_some (by omega), load_some (by omega), load_some (by omega), load_some (by omega),
    load_some (by omega), load_some (by omega)]
  rfl

/-! The signed readers subtract `2^width` from the values past the middle of the
range. That is the two's-complement reading of the same bits. -/

/-- A bit vector is the cast of its unsigned value. -/
theorem ofInt_toNat {n : Nat} (v : BitVec n) : BitVec.ofInt n v.toNat = v := by
  rw [BitVec.ofInt_natCast, BitVec.ofNat_toNat, BitVec.setWidth_eq]

/-- It is the cast of that value less `2^n`, too. -/
theorem ofInt_toNat_sub {n : Nat} (v : BitVec n) :
    BitVec.ofInt n ((v.toNat : Int) - (2 ^ n : Nat)) = v := by
  apply BitVec.eq_of_toNat_eq
  rw [BitVec.toNat_ofInt, Int.sub_emod_right, Int.emod_eq_of_lt (by omega) (by omega),
    Int.toNat_natCast]

/-- Both branches of the 16-bit reader are the cast of the bits. -/
theorem int16_of_value (value : UInt16) :
    (if value ≤ 32767 then Int16.ofInt value.toNat
      else Int16.ofInt ((value.toNat : Int) - 65536)) = value.toInt16 := by
  have hlow : Int16.ofInt value.toNat = value.toInt16 :=
    Int16.toBitVec_inj.mp (ofInt_toNat value.toBitVec)
  have hhigh : Int16.ofInt ((value.toNat : Int) - 65536) = value.toInt16 :=
    Int16.toBitVec_inj.mp (ofInt_toNat_sub value.toBitVec)
  rw [hlow, hhigh, ite_self]

theorem int32_of_value (value : UInt32) :
    (if value ≤ 2147483647 then Int32.ofInt value.toNat
      else Int32.ofInt ((value.toNat : Int) - 4294967296)) = value.toInt32 := by
  have hlow : Int32.ofInt value.toNat = value.toInt32 :=
    Int32.toBitVec_inj.mp (ofInt_toNat value.toBitVec)
  have hhigh : Int32.ofInt ((value.toNat : Int) - 4294967296) = value.toInt32 :=
    Int32.toBitVec_inj.mp (ofInt_toNat_sub value.toBitVec)
  rw [hlow, hhigh, ite_self]

theorem int8_of_value (value : UInt8) :
    (if value ≤ 127 then Int8.ofInt value.toNat
      else Int8.ofInt ((value.toNat : Int) - 256)) = value.toInt8 := by
  have hlow : Int8.ofInt value.toNat = value.toInt8 :=
    Int8.toBitVec_inj.mp (ofInt_toNat value.toBitVec)
  have hhigh : Int8.ofInt ((value.toNat : Int) - 256) = value.toInt8 :=
    Int8.toBitVec_inj.mp (ofInt_toNat_sub value.toBitVec)
  rw [hlow, hhigh, ite_self]

/-- A signed reader returns the bits of the unsigned one. -/
theorem ubxReadI16Le_ok {cells : List UInt8} {offset : Nat} (h : offset + 2 ≤ cells.length) :
    ubxReadI16Le (some cells) offset
      = .ok (UInt16.ofNat (leValue ((cells.drop offset).take 2))).toInt16 := by
  rw [ubxReadI16Le, ubxReadU16Le_ok h, ok_bind, ← int16_of_value]
  split <;> rfl

theorem ubxReadI32Le_ok {cells : List UInt8} {offset : Nat} (h : offset + 4 ≤ cells.length) :
    ubxReadI32Le (some cells) offset
      = .ok (UInt32.ofNat (leValue ((cells.drop offset).take 4))).toInt32 := by
  rw [ubxReadI32Le, ubxReadU32Le_ok h, ok_bind, ← int32_of_value]
  split <;> rfl

theorem ubxReadI8_ok {cells : List UInt8} {offset : Nat} (h : offset < cells.length) :
    ubxReadI8 (some cells) offset = .ok cells[offset].toInt8 := by
  rw [ubxReadI8, load_some h, ok_bind, ← int8_of_value]
  split <;> rfl

/-! ## Fields by offset

A reader whose bytes lie in the front `xs` of an object returns the field of
`xs`, whatever follows. -/

/-- The byte at an offset. -/
def byteAt (xs : List UInt8) (i : Nat) : UInt8 := xs.getD i 0

/-- The two bytes at an offset. -/
def u16At (xs : List UInt8) (i : Nat) : UInt16 := UInt16.ofNat (leValue ((xs.drop i).take 2))

/-- The four bytes at an offset. -/
def u32At (xs : List UInt8) (i : Nat) : UInt32 := UInt32.ofNat (leValue ((xs.drop i).take 4))

/-- The eight bytes at an offset. -/
def u64At (xs : List UInt8) (i : Nat) : UInt64 := UInt64.ofNat (leValue ((xs.drop i).take 8))

section

variable {xs : List UInt8} {i : Nat}

/-- A byte of the front is read, whatever follows. -/
theorem readByte_front (h : i < xs.length) (more : List UInt8) :
    load (some (xs ++ more)) i = .ok (byteAt xs i) := by
  rw [load_append h, byteAt, List.getD_eq_getElem _ _ h]

/-- A byte read from the front alone is the byte of the front. -/
theorem readByte_eq {b : UInt8} (hread : load (some xs) i = .ok b) : byteAt xs i = b := by
  obtain ⟨hi, rfl⟩ := load_eq_ok.mp hread
  exact List.getD_eq_getElem _ _ hi

/-- So are two bytes of the front, and so on for every reader. -/
theorem readU16_front (h : i + 2 ≤ xs.length) (more : List UInt8) :
    ubxReadU16Le (some (xs ++ more)) i = .ok (u16At xs i) := by
  rw [ubxReadU16Le_ok (by rw [List.length_append]; omega), field_front h, u16At]

theorem readU32_front (h : i + 4 ≤ xs.length) (more : List UInt8) :
    ubxReadU32Le (some (xs ++ more)) i = .ok (u32At xs i) := by
  rw [ubxReadU32Le_ok (by rw [List.length_append]; omega), field_front h, u32At]

theorem readU64_front (h : i + 8 ≤ xs.length) (more : List UInt8) :
    ubxReadU64Le (some (xs ++ more)) i = .ok (u64At xs i) := by
  rw [ubxReadU64Le_ok (by rw [List.length_append]; omega), field_front h, u64At]

theorem readI8_front (h : i < xs.length) (more : List UInt8) :
    ubxReadI8 (some (xs ++ more)) i = .ok (byteAt xs i).toInt8 := by
  rw [ubxReadI8_ok (by rw [List.length_append]; omega), List.getElem_append_left h, byteAt,
    List.getD_eq_getElem _ _ h]

theorem readI16_front (h : i + 2 ≤ xs.length) (more : List UInt8) :
    ubxReadI16Le (some (xs ++ more)) i = .ok (u16At xs i).toInt16 := by
  rw [ubxReadI16Le_ok (by rw [List.length_append]; omega), field_front h, u16At]

theorem readI32_front (h : i + 4 ≤ xs.length) (more : List UInt8) :
    ubxReadI32Le (some (xs ++ more)) i = .ok (u32At xs i).toInt32 := by
  rw [ubxReadI32Le_ok (by rw [List.length_append]; omega), field_front h, u32At]

end

/-- A field whose bytes are those of a value is that value. -/
theorem u16At_eq {xs : List UInt8} {i : Nat} {v : UInt16}
    (h : (xs.drop i).take 2 = leBytes 2 v.toNat) : u16At xs i = v := by
  rw [u16At, h, leValue_leBytes_of_lt v.toNat_lt, UInt16.ofNat_toNat]

theorem u32At_eq {xs : List UInt8} {i : Nat} {v : UInt32}
    (h : (xs.drop i).take 4 = leBytes 4 v.toNat) : u32At xs i = v := by
  rw [u32At, h, leValue_leBytes_of_lt v.toNat_lt, UInt32.ofNat_toNat]

/-! ## Writers -/

/-- `ubx_write_u16_le`. -/
def ubxWriteU16Le (data : Option (List UInt8)) (offset : Nat) (value : UInt16) :
    Run (Option (List UInt8)) := do
  let data ← store data offset value.toUInt8
  store data (offset + 1) (value >>> 8).toUInt8

/-- `ubx_write_u32_le`. -/
def ubxWriteU32Le (data : Option (List UInt8)) (offset : Nat) (value : UInt32) :
    Run (Option (List UInt8)) := do
  let data ← store data offset value.toUInt8
  let data ← store data (offset + 1) (value >>> 8).toUInt8
  let data ← store data (offset + 2) (value >>> 16).toUInt8
  store data (offset + 3) (value >>> 24).toUInt8

/-- What the 16-bit writer stores are the bytes of the value. -/
theorem leBytes16 (value : UInt16) :
    leBytes 2 value.toNat = [value.toUInt8, (value >>> 8).toUInt8] := by
  have h1 : UInt8.ofNat (value.toNat / 256) = (value >>> 8).toUInt8 := by
    apply UInt8.toNat_inj.mp
    rw [UInt16.toNat_toUInt8, UInt16.toNat_shiftRight, UInt8.toNat_ofNat',
      Nat.shiftRight_eq_div_pow]
    rfl
  rw [leBytes, leBytes, leBytes, h1]
  rfl

/-- Byte `k / 8` of a 32-bit word. -/
theorem shr32 (value : UInt32) (k : UInt32) (hk : k.toNat < 32) :
    (value >>> k).toUInt8 = UInt8.ofNat (value.toNat / 2 ^ k.toNat) := by
  apply UInt8.toNat_inj.mp
  rw [UInt32.toNat_toUInt8, UInt32.toNat_shiftRight, UInt8.toNat_ofNat', Nat.mod_eq_of_lt hk,
    Nat.shiftRight_eq_div_pow]

theorem leBytes32 (value : UInt32) :
    leBytes 4 value.toNat = [value.toUInt8, (value >>> 8).toUInt8, (value >>> 16).toUInt8,
      (value >>> 24).toUInt8] := by
  rw [shr32 value 8 (by simp), shr32 value 16 (by simp), shr32 value 24 (by simp)]
  simp only [leBytes, Nat.div_div_eq_div_mul]
  rfl

/-- So a writer copies these bytes. -/
theorem ubxWriteU16Le_eq (data : Option (List UInt8)) (offset : Nat) (value : UInt16) :
    ubxWriteU16Le data offset value = storeRange data offset (leBytes 2 value.toNat) := by
  rw [leBytes16, ubxWriteU16Le]
  simp only [storeRange, bind_pure]

theorem ubxWriteU32Le_eq (data : Option (List UInt8)) (offset : Nat) (value : UInt32) :
    ubxWriteU32Le data offset value = storeRange data offset (leBytes 4 value.toNat) := by
  rw [leBytes32, ubxWriteU32Le]
  simp only [storeRange, bind_pure, Nat.add_assoc, Nat.reduceAdd]

section

variable {cells w : List UInt8} {i : Nat}

/-- The next number of an append-only writer. -/
theorem ubxWriteU16Le_written (hi : i = w.length) (h : i + 2 ≤ cells.length) (value : UInt16) :
    ubxWriteU16Le (some (written cells w)) i value
      = .ok (some (written cells (w ++ leBytes 2 value.toNat))) := by
  rw [ubxWriteU16Le_eq, hi, storeRange_written _ _ (by rw [length_leBytes, ← hi]; exact h)]

theorem ubxWriteU32Le_written (hi : i = w.length) (h : i + 4 ≤ cells.length) (value : UInt32) :
    ubxWriteU32Le (some (written cells w)) i value
      = .ok (some (written cells (w ++ leBytes 4 value.toNat))) := by
  rw [ubxWriteU32Le_eq, hi, storeRange_written _ _ (by rw [length_leBytes, ← hi]; exact h)]

end

/-! ## Signed values as bytes -/

/-- Two's complement: the bits of a signed value are its residue. -/
theorem toNat_of_toInt {n : Nat} (v : BitVec n) : (v.toInt % 2 ^ n).toNat = v.toNat := by
  have hcast : ((2 ^ n : Nat) : Int) = 2 ^ n := by
    push_cast
    rfl
  rw [BitVec.toInt_eq_toNat_bmod, ← hcast, Int.bmod_emod, ← Int.natCast_emod, Int.toNat_natCast,
    Nat.mod_eq_of_lt v.isLt]

/-- The signed types one by one. -/
theorem int8_residue (v : Int8) : (v.toInt % 2 ^ 8).toNat = v.toUInt8.toNat :=
  toNat_of_toInt v.toBitVec

theorem int16_residue (v : Int16) : (v.toInt % 2 ^ 16).toNat = v.toUInt16.toNat :=
  toNat_of_toInt v.toBitVec

theorem int32_residue (v : Int32) : (v.toInt % 2 ^ 32).toNat = v.toUInt32.toNat :=
  toNat_of_toInt v.toBitVec

/-- One byte is its own wire form. -/
theorem leBytes8 (value : UInt8) : leBytes 1 value.toNat = [value] := by
  rw [leBytes, leBytes, UInt8.ofNat_toNat]

end Ubx
