import Ubx.Lib.Signed
import Ubx.Wire

/-!
# The little-endian helpers are inverses, `src/ubx_internal.h`

The writers and the unsigned readers of 16 and 32 bits undo each other, on any
bytes and at any place of an object (`Inverse`). Both pairs have the same two
facts behind them, that a reader returns the base-256 value of its bytes and that
a writer stores the bytes of its value, so there is one proof, `Inverse.of_bytes`.

The signed readers go on from the unsigned ones, with a conversion below the
middle of the range and a subtraction in a wider type past it.
`ubxReadI16LeChecked` and `ubxReadI32LeChecked` are the same functions with the
range of every signed result checked; no check fails.
-/

namespace Ubx

open Lib

/-! ## Unsigned -/

/-- `read` and `write`, of `n` bytes, undo each other: what is written is read
back and nothing else is changed, and the bytes that were read are restored
wherever the value is written. -/
structure Inverse {α : Type} (n : Nat) (read : Option (List UInt8) → Nat → Run α)
    (write : Option (List UInt8) → Nat → α → Run (Option (List UInt8))) : Prop where
  readBack : ∀ (cells : List UInt8) (offset : Nat) (value : α), offset + n ≤ cells.length →
    ∃ cells', write (some cells) offset value = .ok (some cells') ∧
      read (some cells') offset = .ok value ∧ cells'.length = cells.length ∧
      cells'.take offset = cells.take offset ∧ cells'.drop (offset + n) = cells.drop (offset + n)
  restores : ∀ (cells : List UInt8) (offset : Nat), offset + n ≤ cells.length →
    ∃ value, read (some cells) offset = .ok value ∧
      ∀ (object : List UInt8) (place : Nat), place + n ≤ object.length →
        ∃ object', write (some object) place value = .ok (some object') ∧
          (object'.drop place).take n = (cells.drop offset).take n

/-- A reader of base-256 values and a writer of the bytes of a value. -/
theorem Inverse.of_bytes {α : Type} {n : Nat} {toNat : α → Nat} {ofNat : Nat → α}
    {read : Option (List UInt8) → Nat → Run α}
    {write : Option (List UInt8) → Nat → α → Run (Option (List UInt8))}
    (hlt : ∀ value, toNat value < 256 ^ n) (hofNat : ∀ value, ofNat (toNat value) = value)
    (htoNat : ∀ k, toNat (ofNat k) = k % 256 ^ n)
    (hread : ∀ {cells : List UInt8} {offset : Nat}, offset + n ≤ cells.length →
      read (some cells) offset = .ok (ofNat (leValue ((cells.drop offset).take n))))
    (hwrite : ∀ data offset value,
      write data offset value = storeRange data offset (leBytes n (toNat value))) :
    Inverse n read write := by
  have hstore : ∀ (cells : List UInt8) (offset : Nat) (value : α), offset + n ≤ cells.length →
      ∃ cells', write (some cells) offset value = .ok (some cells') ∧
        cells'.length = cells.length ∧ (cells'.drop offset).take n = leBytes n (toNat value) ∧
        cells'.take offset = cells.take offset ∧
        cells'.drop (offset + n) = cells.drop (offset + n) := by
    intro cells offset value h
    have hmiddle := @storeRange_middle _ cells (leBytes n (toNat value)) offset
      (by rw [length_leBytes]; exact h)
    rwa [← hwrite, length_leBytes] at hmiddle
  constructor
  · intro cells offset value h
    obtain ⟨cells', hrun, hlen, hbytes, hfront, hrest⟩ := hstore cells offset value h
    refine ⟨cells', hrun, ?_, hlen, hfront, hrest⟩
    rw [hread (by rw [hlen]; exact h), hbytes, leValue_leBytes_of_lt (hlt value), hofNat]
  · intro cells offset h
    refine ⟨_, hread h, ?_⟩
    intro object place hplace
    obtain ⟨object', hrun, -, hbytes, -⟩ := hstore object place _ hplace
    refine ⟨object', hrun, ?_⟩
    rw [hbytes, htoNat, leBytes_field h]

theorem u16_inverse : Inverse 2 ubxReadU16Le ubxWriteU16Le :=
  .of_bytes UInt16.toNat_lt (fun _ => UInt16.ofNat_toNat) (fun _ => UInt16.toNat_ofNat')
    ubxReadU16Le_ok ubxWriteU16Le_eq

theorem u32_inverse : Inverse 4 ubxReadU32Le ubxWriteU32Le :=
  .of_bytes UInt32.toNat_lt (fun _ => UInt32.ofNat_toNat) (fun _ => UInt32.toNat_ofNat')
    ubxReadU32Le_ok ubxWriteU32Le_eq

/-- `ubx_read_u64_le` loses nothing of the base-256 value of its bytes. -/
theorem ubxReadU64Le_value {cells : List UInt8} {offset : Nat} (h : offset + 8 ≤ cells.length) :
    ∃ value, ubxReadU64Le (some cells) offset = .ok value ∧
      value.toNat = leValue ((cells.drop offset).take 8) := by
  refine ⟨_, ubxReadU64Le_ok h, ?_⟩
  rw [UInt64.toNat_ofNat']
  exact leValue_mod (length_window h)

/-! ## Signed -/

/-- What the signed readers make of the unsigned value: it is converted as it is
up to the maximum of the signed type; past it `2^bits` is subtracted in a signed
type of `wide` bits first. -/
def signedOf (bits wide value : Nat) : Option Int :=
  if value ≤ 2 ^ (bits - 1) - 1 then
    signedResult bits value
  else do
    let extended ← signedResult wide value
    let difference ← signedResult wide (extended - 2 ^ bits)
    signedResult bits difference

/-- `ubx_read_i16_le`, checked; the subtraction is one of `long`, with the 32 bits
that C requires of it. -/
def ubxReadI16LeChecked (data : Option (List UInt8)) (offset : Nat) : Run (Option Int) := do
  let value ← ubxReadU16Le data offset
  return signedOf 16 32 value.toNat

/-- `ubx_read_i32_le`, checked; the subtraction is one of `long long`. -/
def ubxReadI32LeChecked (data : Option (List UInt8)) (offset : Nat) : Run (Option Int) := do
  let value ← ubxReadU32Le data offset
  return signedOf 32 64 value.toNat

/-- No step leaves its type, and what comes out is the two's-complement reading. -/
theorem signedOf_toNat {bits wide : Nat} (hpos : 0 < bits) (hwide : bits < wide)
    (v : BitVec bits) : signedOf bits wide v.toNat = some v.toInt := by
  have hrange := (signedReading_toInt hpos v).range
  have hlt := v.isLt
  have hhalf : 2 ^ (bits - 1) * 2 = 2 ^ bits := Nat.two_pow_pred_mul_two hpos
  unfold signedOf
  by_cases hlow : v.toNat ≤ 2 ^ (bits - 1) - 1
  · have hvalue : v.toInt = v.toNat := by
      rw [BitVec.toInt_eq_toNat_cond, if_pos (by omega)]
    rw [if_pos hlow, ← hvalue]
    exact signedResult_some hrange
  · have hvalue : v.toInt = v.toNat - 2 ^ bits := by
      rw [BitVec.toInt_eq_toNat_cond, if_neg (by omega)]
      push_cast
      rfl
    -- the wider type holds the unsigned value and the difference
    have hextended : SignedRange wide v.toNat := .natCast hwide v.isLt
    have hdifference : SignedRange wide v.toInt := hrange.mono (Nat.le_of_lt hwide)
    rw [if_neg hlow, signedResult_some hextended]
    show (signedResult wide (v.toNat - 2 ^ bits) >>= _) = _
    rw [← hvalue, signedResult_some hdifference]
    exact signedResult_some hrange

theorem ubxReadI16Le_signed {cells : List UInt8} {offset : Nat} (h : offset + 2 ≤ cells.length) :
    ∃ unsigned signed, ubxReadU16Le (some cells) offset = .ok unsigned ∧
      ubxReadI16Le (some cells) offset = .ok signed ∧
      SignedReading 16 unsigned.toNat signed.toInt ∧
      ubxReadI16LeChecked (some cells) offset = .ok (some signed.toInt) := by
  refine ⟨_, _, ubxReadU16Le_ok h, ubxReadI16Le_ok h, signedReading_toInt (by omega) _, ?_⟩
  rw [ubxReadI16LeChecked, ubxReadU16Le_ok h]
  exact congrArg _ (signedOf_toNat (by omega) (by omega) _)

theorem ubxReadI32Le_signed {cells : List UInt8} {offset : Nat} (h : offset + 4 ≤ cells.length) :
    ∃ unsigned signed, ubxReadU32Le (some cells) offset = .ok unsigned ∧
      ubxReadI32Le (some cells) offset = .ok signed ∧
      SignedReading 32 unsigned.toNat signed.toInt ∧
      ubxReadI32LeChecked (some cells) offset = .ok (some signed.toInt) := by
  refine ⟨_, _, ubxReadU32Le_ok h, ubxReadI32Le_ok h, signedReading_toInt (by omega) _, ?_⟩
  rw [ubxReadI32LeChecked, ubxReadU32Le_ok h]
  exact congrArg _ (signedOf_toNat (by omega) (by omega) _)

/-! ## All of them -/

/-- **The helpers are exact.** The 16- and 32-bit readers and writers undo each
other; eight bytes are read as their base-256 value; and the signed readers
return the one value of their range with the residue of the unsigned reading,
with no subtraction and no conversion out of its type's range. -/
theorem helpers_exact (cells : List UInt8) (offset : Nat) :
    Inverse 2 ubxReadU16Le ubxWriteU16Le ∧ Inverse 4 ubxReadU32Le ubxWriteU32Le ∧
    (offset + 8 ≤ cells.length → ∃ value, ubxReadU64Le (some cells) offset = .ok value ∧
      value.toNat = leValue ((cells.drop offset).take 8)) ∧
    (offset + 2 ≤ cells.length → ∃ unsigned signed,
      ubxReadU16Le (some cells) offset = .ok unsigned ∧
      ubxReadI16Le (some cells) offset = .ok signed ∧
      SignedReading 16 unsigned.toNat signed.toInt ∧
      ubxReadI16LeChecked (some cells) offset = .ok (some signed.toInt)) ∧
    (offset + 4 ≤ cells.length → ∃ unsigned signed,
      ubxReadU32Le (some cells) offset = .ok unsigned ∧
      ubxReadI32Le (some cells) offset = .ok signed ∧
      SignedReading 32 unsigned.toNat signed.toInt ∧
      ubxReadI32LeChecked (some cells) offset = .ok (some signed.toInt)) :=
  ⟨u16_inverse, u32_inverse, ubxReadU64Le_value, ubxReadI16Le_signed, ubxReadI32Le_signed⟩

/-- The bytes of the least 16-bit value. -/
theorem helpers_exact_least :
    ∃ unsigned signed, ubxReadU16Le (some [0x00, 0x80]) 0 = .ok unsigned ∧
      ubxReadI16Le (some [0x00, 0x80]) 0 = .ok signed ∧
      SignedReading 16 unsigned.toNat signed.toInt ∧
      ubxReadI16LeChecked (some [0x00, 0x80]) 0 = .ok (some signed.toInt) :=
  (helpers_exact [0x00, 0x80] 0).2.2.2.1 (by decide)

end Ubx
