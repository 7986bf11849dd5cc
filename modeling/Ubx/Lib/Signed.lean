import Mathlib.Data.Int.GCD

/-!
# Signed types

A signed type of `bits` bits holds the integers of `SignedRange bits`. What an
operation of the type makes of another integer is not defined by C, so
`signedResult` gives none for it: a computation that goes through `signedResult`
at every step and has a result never left its types.

`SignedReading` is what a signed value has to do with the unsigned value of the
same bits: it is the only one of the range with that residue. The signed reading
of a bit vector is one (`signedReading_toInt`).
-/

namespace Lib

/-- The values of a signed type. -/
def SignedRange (bits : Nat) (x : Int) : Prop := -2 ^ (bits - 1) ≤ x ∧ x < 2 ^ (bits - 1)

instance (bits : Nat) (x : Int) : Decidable (SignedRange bits x) :=
  inferInstanceAs (Decidable (_ ∧ _))

/-- A wider type holds more. -/
theorem SignedRange.mono {bits wide : Nat} (h : bits ≤ wide) {x : Int} (hx : SignedRange bits x) :
    SignedRange wide x := by
  obtain ⟨hlow, hhigh⟩ := hx
  have hle : (2 : Int) ^ (bits - 1) ≤ 2 ^ (wide - 1) := by
    exact_mod_cast Nat.pow_le_pow_right Nat.two_pos (Nat.sub_le_sub_right h 1)
  exact ⟨by omega, by omega⟩

/-- And a type with one bit more holds every unsigned value. -/
theorem SignedRange.natCast {bits wide : Nat} (h : bits < wide) {value : Nat}
    (hvalue : value < 2 ^ bits) : SignedRange wide value := by
  have hle : 2 ^ bits ≤ 2 ^ (wide - 1) := Nat.pow_le_pow_right Nat.two_pos (by omega)
  constructor
  · have hneg : -(2 : Int) ^ (wide - 1) ≤ 0 := Int.neg_nonpos_of_nonneg (Int.pow_nonneg (by omega))
    omega
  · exact_mod_cast Nat.lt_of_lt_of_le hvalue hle

/-- The result of an operation or a conversion, where the type holds it. -/
def signedResult (bits : Nat) (x : Int) : Option Int := if SignedRange bits x then some x else none

theorem signedResult_some {bits : Nat} {x : Int} (h : SignedRange bits x) :
    signedResult bits x = some x :=
  if_pos h

/-- The signed value of the range with the residue of the unsigned one. -/
structure SignedReading (bits unsigned : Nat) (signed : Int) : Prop where
  range : SignedRange bits signed
  residue : signed % 2 ^ bits = unsigned % 2 ^ bits
  unique : ∀ x, SignedRange bits x → x % 2 ^ bits = unsigned % 2 ^ bits → x = signed

/-- The range is the one of the balanced residues. -/
theorem SignedRange.bmod_eq {bits : Nat} (hpos : 0 < bits) {x : Int} (h : SignedRange bits x) :
    x.bmod (2 ^ bits) = x := by
  obtain ⟨hlow, hhigh⟩ := h
  have hhalf : (2 : Int) ^ bits = 2 * 2 ^ (bits - 1) := by
    rw [← Int.pow_succ', Nat.sub_add_cancel hpos]
  apply Int.bmod_eq_of_le_mul_two
  · push_cast
    omega
  · push_cast
    omega

theorem signedReading_toInt {bits : Nat} (hpos : 0 < bits) (v : BitVec bits) :
    SignedReading bits v.toNat v.toInt := by
  have hrange : SignedRange bits v.toInt := ⟨v.le_toInt, v.toInt_lt⟩
  have hresidue : v.toInt % 2 ^ bits = v.toNat % 2 ^ bits := by
    have hmod := @Int.bmod_emod v.toNat (2 ^ bits)
    rw [← BitVec.toInt_eq_toNat_bmod] at hmod
    push_cast at hmod
    exact hmod
  refine ⟨hrange, hresidue, fun x hx hxresidue => ?_⟩
  -- both are the balanced residue of one number
  have hsame : x.bmod (2 ^ bits) = v.toInt.bmod (2 ^ bits) := by
    rw [← Int.emod_bmod x, ← Int.emod_bmod v.toInt]
    push_cast
    rw [hxresidue, hresidue]
  rwa [hx.bmod_eq hpos, hrange.bmod_eq hpos] at hsame

end Lib
