import Mathlib.Algebra.BigOperators.Group.List.Basic
import Mathlib.Algebra.BigOperators.Fin
import Mathlib.Tactic.Ring
import Mathlib.Tactic.LinearCombination

/-!
# Fletcher's double running sum

For each element `x` of a list the checksum adds `x` to the first sum, then the
new first sum to the second. Over a commutative ring the two sums have a closed
form (`sums_eq`): the first is the plain sum of the list, the second the
`weighted` one, in which element `j` of `n` counts `n - j` times.

What the checksum detects is read off these: changing one element changes the
first sum (`sums_set_ne`), and changing two elements whose distance is
invertible in the ring changes one of the two (`sums_set_set_ne`), since two
changes that cancel in the first sum leave `distance * change` in the second.

What it does not detect is read off as well. The sums are linear (`sums_sub`),
so two lists have the same sums where the sums of their difference vanish; and
`sums_set_set_iff` says when two changes cancel in both.
-/

namespace Lib.Fletcher

variable {R : Type}

/-- One element into the two running sums. -/
def add [Add R] (ab : R × R) (x : R) : R × R := (ab.1 + x, ab.2 + (ab.1 + x))

/-- The two sums of a list, started from zero. -/
def sums [Add R] [Zero R] (xs : List R) : R × R := xs.foldl add (0, 0)

/-- The sums are incremental: one more element is one more step. -/
theorem sums_append_singleton [Add R] [Zero R] (xs : List R) (x : R) :
    sums (xs ++ [x]) = add (sums xs) x := by
  rw [sums, List.foldl_append]
  rfl

/-- Element `j` of `n` counted `n - j` times. -/
def weighted [Add R] [Zero R] [SMul ℕ R] : List R → R
  | [] => 0
  | x :: xs => (xs.length + 1) • x + weighted xs

/-- The weighted sum of the values of a list, written out. -/
theorem weighted_map {α : Type} [AddCommMonoid R] (f : α → R) (xs : List α) :
    weighted (xs.map f) = ∑ j : Fin xs.length, (xs.length - j.val) • f xs[j.val] := by
  induction xs with
  | nil => rfl
  | cons x xs ih =>
    have hhead : ∑ j : Fin (x :: xs).length, ((x :: xs).length - j.val) • f (x :: xs)[j.val]
        = (xs.length + 1) • f x
          + ∑ j : Fin xs.length, (xs.length + 1 - (j.val + 1)) • f xs[j.val] :=
      Fin.sum_univ_succ _
    rw [List.map_cons, weighted, ih, List.length_map, hhead]
    simp only [Nat.add_sub_add_right]

variable [CommRing R]

theorem foldl_add (xs : List R) : ∀ ab : R × R,
    xs.foldl add ab = (ab.1 + xs.sum, ab.2 + xs.length * ab.1 + weighted xs) := by
  induction xs with
  | nil =>
    intro ab
    simp [weighted]
  | cons x xs ih =>
    intro ab
    rw [List.foldl_cons, ih, add, List.sum_cons, weighted, List.length_cons, nsmul_eq_mul]
    refine Prod.ext ?_ ?_
    · ring
    · push_cast
      ring

/-- **Closed form.** -/
theorem sums_eq (xs : List R) : sums xs = (xs.sum, weighted xs) := by
  rw [sums, foldl_add]
  simp

/-! ## What a change does to the two sums -/

theorem sum_set (xs : List R) (i : Nat) (h : i < xs.length) (y : R) :
    (xs.set i y).sum = xs.sum + (y - xs[i]) := by
  rw [List.sum_set', dif_pos h]
  ring

theorem weighted_set : ∀ (xs : List R) (i : Nat) (h : i < xs.length) (y : R),
    weighted (xs.set i y) = weighted xs + ((xs.length - i : ℕ) : R) * (y - xs[i])
  | x :: xs, 0, _, y => by
    rw [List.set_cons_zero, weighted, weighted, List.getElem_cons_zero, nsmul_eq_mul,
      nsmul_eq_mul, List.length_cons, Nat.sub_zero]
    ring
  | x :: xs, i + 1, h, y => by
    have hi : i < xs.length := by simpa using h
    rw [List.set_cons_succ, weighted, weighted, weighted_set xs i hi y, List.length_set,
      List.getElem_cons_succ, List.length_cons, Nat.add_sub_add_right]
    ring

/-- Changing one element changes the first sum. -/
theorem sums_set_ne {xs : List R} {i : Nat} (h : i < xs.length) {y : R} (hy : y ≠ xs[i]) :
    (sums (xs.set i y)).1 ≠ (sums xs).1 := by
  intro heq
  rw [sums_eq, sums_eq] at heq
  have hsum : xs.sum + (y - xs[i]) = xs.sum := (sum_set xs i h y).symm.trans heq
  exact hy (sub_eq_zero.mp (by linear_combination hsum))

/-- Changing two elements at an invertible distance changes one of the sums. -/
theorem sums_set_set_ne {xs : List R} {i j : Nat} (hij : i < j) (hj : j < xs.length) {y z : R}
    (hy : y ≠ xs[i]) (hunit : IsUnit ((j - i : ℕ) : R)) :
    sums ((xs.set i y).set j z) ≠ sums xs := by
  intro heq
  have hi : i < xs.length := Nat.lt_trans hij hj
  rw [sums_eq, sums_eq, Prod.mk.injEq] at heq
  obtain ⟨hfst, hsnd⟩ := heq
  have hj' : j < (xs.set i y).length := by rwa [List.length_set]
  have hzj : (xs.set i y)[j] = xs[j] := List.getElem_set_ne (by omega) _
  rw [sum_set _ j hj', sum_set xs i hi, hzj] at hfst
  rw [weighted_set _ j hj', weighted_set xs i hi, List.length_set, hzj] at hsnd
  -- the weights differ by the distance
  have hw : ((xs.length - i : ℕ) : R) = ((xs.length - j : ℕ) : R) + ((j - i : ℕ) : R) := by
    rw [← Nat.cast_add]
    congr 1
    omega
  have hzero : ((j - i : ℕ) : R) * (y - xs[i]) = 0 := by
    rw [hw] at hsnd
    linear_combination hsnd - ((xs.length - j : ℕ) : R) * hfst
  exact hy (sub_eq_zero.mp (hunit.mul_right_eq_zero.mp hzero))

/-! ## Changes that cancel -/

theorem sum_zipWith_sub {xs : List R} :
    ∀ {ys : List R}, xs.length = ys.length →
      (List.zipWith (· - ·) xs ys).sum = xs.sum - ys.sum := by
  induction xs with
  | nil =>
    rintro (_ | ⟨y, ys⟩) h
    · simp
    · cases h
  | cons x xs ih =>
    rintro (_ | ⟨y, ys⟩) h
    · cases h
    · rw [List.zipWith_cons_cons, List.sum_cons, List.sum_cons, List.sum_cons,
        ih (Nat.succ.inj h)]
      ring

theorem weighted_zipWith_sub {xs : List R} :
    ∀ {ys : List R}, xs.length = ys.length →
      weighted (List.zipWith (· - ·) xs ys) = weighted xs - weighted ys := by
  induction xs with
  | nil =>
    rintro (_ | ⟨y, ys⟩) h
    · simp [weighted]
    · cases h
  | cons x xs ih =>
    rintro (_ | ⟨y, ys⟩) h
    · cases h
    · have hlen : xs.length = ys.length := Nat.succ.inj h
      rw [List.zipWith_cons_cons, weighted, weighted, weighted, ih hlen, List.length_zipWith,
        ← hlen, Nat.min_self, nsmul_eq_mul, nsmul_eq_mul, nsmul_eq_mul]
      ring

/-- **The sums are linear.** -/
theorem sums_sub {xs ys : List R} (h : xs.length = ys.length) :
    sums (List.zipWith (· - ·) xs ys)
      = ((sums xs).1 - (sums ys).1, (sums xs).2 - (sums ys).2) := by
  rw [sums_eq, sums_eq, sums_eq, sum_zipWith_sub h, weighted_zipWith_sub h]

/-- **Two changes that leave the sums as they were** are opposite, and their
distance makes nothing of them. -/
theorem sums_set_set_iff {xs : List R} {i j : Nat} (hij : i < j) (hj : j < xs.length) (y z : R) :
    sums ((xs.set i y).set j z) = sums xs ↔
      (y - xs[i]) + (z - xs[j]) = 0 ∧ ((j - i : ℕ) : R) * (y - xs[i]) = 0 := by
  have hi : i < xs.length := Nat.lt_trans hij hj
  have hj' : j < (xs.set i y).length := by rwa [List.length_set]
  have hzj : (xs.set i y)[j] = xs[j] := List.getElem_set_ne (by omega) _
  have hw : ((xs.length - i : ℕ) : R) = ((xs.length - j : ℕ) : R) + ((j - i : ℕ) : R) := by
    rw [← Nat.cast_add]
    congr 1
    omega
  rw [sums_eq, sums_eq, Prod.mk.injEq, sum_set _ j hj', sum_set xs i hi, weighted_set _ j hj',
    weighted_set xs i hi, List.length_set, hzj, hw]
  constructor
  · rintro ⟨hfst, hsnd⟩
    constructor
    · linear_combination hfst
    · linear_combination hsnd - ((xs.length - j : ℕ) : R) * hfst
  · rintro ⟨hcancel, hdistance⟩
    constructor
    · linear_combination hcancel
    · linear_combination hdistance + ((xs.length - j : ℕ) : R) * hcancel

end Lib.Fletcher
