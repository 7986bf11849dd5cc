import Mathlib.Data.Nat.Digits.Defs
import Mathlib.Data.Nat.Bitwise

/-!
# Little-endian bytes

`leValue bs` is the base-256 value of a byte list, low byte first, and
`leBytes n v` the `n` low bytes of `v`. Each undoes the other
(`leValue_leBytes`, `leBytes_leValue`), so a field of any width is its byte
list, and a byte list of any length is the field it encodes.

`shift_or_eq` is the step by which shifted bytes combined with `|` add up to
the base-256 value.
-/

namespace Lib

/-- The base-256 value of a byte list, low byte first. -/
def leValue (bs : List UInt8) : Nat := Nat.ofDigits 256 (bs.map UInt8.toNat)

/-- The `n` low bytes of `v`, low byte first. -/
def leBytes : (n : Nat) → Nat → List UInt8
  | 0, _ => []
  | n + 1, v => UInt8.ofNat v :: leBytes n (v / 256)

@[simp] theorem leValue_nil : leValue [] = 0 := rfl

@[simp] theorem leValue_cons (b : UInt8) (bs : List UInt8) :
    leValue (b :: bs) = b.toNat + 256 * leValue bs := by
  rw [leValue, List.map_cons, Nat.ofDigits_cons]
  rfl

@[simp] theorem length_leBytes : ∀ (n v : Nat), (leBytes n v).length = n := by
  intro n
  induction n with
  | zero =>
    intro _
    rfl
  | succ n ih =>
    intro v
    rw [leBytes, List.length_cons, ih]

theorem leValue_lt : ∀ bs : List UInt8, leValue bs < 256 ^ bs.length := by
  intro bs
  induction bs with
  | nil =>
    decide
  | cons b bs ih =>
    have hb := b.toNat_lt
    have hbs := ih
    rw [leValue_cons, List.length_cons, Nat.pow_succ]
    omega

/-- The bytes of `v` hold `v`, up to the width. -/
theorem leValue_leBytes : ∀ (n v : Nat), leValue (leBytes n v) = v % 256 ^ n := by
  intro n
  induction n with
  | zero =>
    intro v
    rw [leBytes, leValue_nil, Nat.pow_zero, Nat.mod_one]
  | succ n ih =>
    intro v
    rw [leBytes, leValue_cons, ih, UInt8.toNat_ofNat']
    show v % 256 + 256 * (v / 256 % 256 ^ n) = v % 256 ^ (n + 1)
    rw [Nat.pow_succ', Nat.mod_mul]

/-- A value that fits is read back. -/
theorem leValue_leBytes_of_lt {n v : Nat} (h : v < 256 ^ n) : leValue (leBytes n v) = v := by
  rw [leValue_leBytes, Nat.mod_eq_of_lt h]

/-- So the bytes of values that fit tell them apart. -/
theorem leBytes_inj {n a b : Nat} (ha : a < 256 ^ n) (hb : b < 256 ^ n)
    (h : leBytes n a = leBytes n b) : a = b := by
  have hvalue := congrArg leValue h
  rwa [leValue_leBytes_of_lt ha, leValue_leBytes_of_lt hb] at hvalue

/-- A byte list is the bytes of its value. -/
theorem leBytes_leValue : ∀ bs : List UInt8, leBytes bs.length (leValue bs) = bs := by
  intro bs
  induction bs with
  | nil =>
    rfl
  | cons b bs ih =>
    have hb := b.toNat_lt
    have hlow : UInt8.ofNat (b.toNat + 256 * leValue bs) = b := by
      apply UInt8.toNat_inj.mp
      rw [UInt8.toNat_ofNat']
      omega
    have hhigh : (b.toNat + 256 * leValue bs) / 256 = leValue bs := by omega
    rw [List.length_cons, leValue_cons, leBytes, hlow, hhigh, ih]

/-- The value of `n` bytes fits them. -/
theorem leValue_mod {n : Nat} {bs : List UInt8} (h : bs.length = n) :
    leValue bs % 256 ^ n = leValue bs := by
  subst h
  exact Nat.mod_eq_of_lt (leValue_lt bs)

/-- So they are the bytes of a word that holds it. -/
theorem leBytes_leValue_mod {n : Nat} {bs : List UInt8} (h : bs.length = n) :
    leBytes n (leValue bs % 256 ^ n) = bs := by
  rw [leValue_mod h]
  subst h
  exact leBytes_leValue bs

/-- A shifted byte and the bytes below it: `|` is `+`. -/
theorem shift_or_eq (low high k : Nat) (h : low < 2 ^ k) :
    low ||| (high <<< k) = low + 2 ^ k * high := by
  rw [Nat.or_comm, ← Nat.shiftLeft_add_eq_or_of_lt h, Nat.shiftLeft_eq, Nat.add_comm,
    Nat.mul_comm]

end Lib
