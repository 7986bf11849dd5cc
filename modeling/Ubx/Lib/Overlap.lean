import Ubx.Lib.Memory

/-!
# Writing and copying inside one object

Two C pointers may refer to places of one object. What is written through one of
them is then read through the other.

`spliced cells offset w` is an object that a writer standing at `offset` has
overwritten with `w`; it is to a writer inside an object what `written` is to
one at its front.

`copyWithin` is the copy loop from one place to another, lowest index first.
Where the target lies behind the source, by `d` cells, the loop reads what it
has written after `d` steps, so what it copies is the first `d` cells over and
over: cell `k` comes from `origin source target k` (`copyWithin_ok`). Every other
copy is one of the cells as they were.
-/

namespace Lib

variable {α σ : Type}

/-! ## A writer inside an object -/

/-- The object `cells` after its cells from `offset` on were overwritten by `w`. -/
def spliced (cells : List α) (offset : Nat) (w : List α) : List α :=
  cells.take offset ++ w ++ cells.drop (offset + w.length)

theorem spliced_nil (cells : List α) (offset : Nat) : spliced cells offset [] = cells := by
  rw [spliced, List.append_nil, List.length_nil, Nat.add_zero, List.take_append_drop]

section

variable {cells w : List α} {offset i : Nat}

theorem length_spliced (h : offset + w.length ≤ cells.length) :
    (spliced cells offset w).length = cells.length := by
  rw [spliced, List.length_append, List.length_append, List.length_take, List.length_drop]
  omega

/-- A writer inside an object is one at its front that has written what was there. -/
theorem spliced_eq_written (h : offset ≤ cells.length) :
    spliced cells offset w = written cells (cells.take offset ++ w) := by
  rw [spliced, written, List.length_append, List.length_take, Nat.min_eq_left h]

theorem spliced_front (hi : i < offset) (h : offset ≤ cells.length) :
    (spliced cells offset w)[i]? = cells[i]? := by
  have htake : i < (cells.take offset).length := by
    rw [List.length_take]
    omega
  rw [spliced, List.append_assoc, List.getElem?_append_left htake, List.getElem?_take_of_lt hi]

theorem spliced_inside (hi : i < w.length) (h : offset ≤ cells.length) :
    (spliced cells offset w)[offset + i]? = w[i]? := by
  have htake : (cells.take offset).length = offset := by
    rw [List.length_take]
    omega
  rw [spliced, List.append_assoc, List.getElem?_append_right (by omega), htake,
    Nat.add_sub_cancel_left, List.getElem?_append_left hi]

theorem spliced_behind (hi : offset + w.length ≤ i) (h : offset + w.length ≤ cells.length) :
    (spliced cells offset w)[i]? = cells[i]? := by
  have hfront : (cells.take offset ++ w).length = offset + w.length := by
    rw [List.length_append, List.length_take]
    omega
  rw [spliced, List.getElem?_append_right (by omega), hfront, List.getElem?_drop,
    Nat.add_sub_of_le hi]

/-- The writer's next store. -/
theorem store_spliced (hi : i = offset + w.length) (h : i < cells.length) (x : α) :
    store (some (spliced cells offset w)) i x = .ok (some (spliced cells offset (w ++ [x]))) := by
  have hoffset : offset ≤ cells.length := by omega
  have hat : i = (cells.take offset ++ w).length := by
    rw [List.length_append, List.length_take]
    omega
  rw [spliced_eq_written hoffset, spliced_eq_written hoffset, store_written hat h,
    List.append_assoc]

/-- A second writer that stands where the first one stopped. -/
theorem spliced_append {w' : List α} (h : offset + w.length + w'.length ≤ cells.length) :
    spliced (spliced cells offset w) (offset + w.length) w' = spliced cells offset (w ++ w') := by
  have hfront : (cells.take offset ++ w).length = offset + w.length := by
    rw [List.length_append, List.length_take, Nat.min_eq_left (by omega)]
  have hbehind : (spliced cells offset w).drop (offset + w.length + w'.length)
      = cells.drop (offset + w.length + w'.length) := by
    rw [spliced, ← List.drop_drop, List.drop_left' hfront, List.drop_drop]
  rw [spliced, hbehind, spliced, List.take_left' hfront, spliced, List.length_append,
    List.append_assoc (cells.take offset), Nat.add_assoc]

/-- A part of the object, overwritten at its front and put back. -/
theorem spliced_written {m : Nat} (hw : w.length ≤ m) (hm : offset + m ≤ cells.length) :
    spliced cells offset (written ((cells.drop offset).take m) w) = spliced cells offset w := by
  have hpart : ((cells.drop offset).take m).drop w.length
      = (cells.drop (offset + w.length)).take (m - w.length) := by
    rw [List.drop_take, List.drop_drop]
  have hlen : (written ((cells.drop offset).take m) w).length = m := by
    rw [length_written (by rw [length_window hm]; exact hw), length_window hm]
  have hrest : cells.drop (offset + m)
      = (cells.drop (offset + w.length)).drop (m - w.length) := by
    rw [List.drop_drop, Nat.add_assoc, Nat.add_sub_of_le hw]
  rw [spliced, hlen, written, hpart, hrest, spliced, List.append_assoc, List.append_assoc,
    List.take_append_drop, ← List.append_assoc]

/-- Two objects that differ where the writer wrote differ. -/
theorem spliced_inj {w' : List α} (h : offset ≤ cells.length) (hlen : w.length = w'.length)
    (heq : spliced cells offset w = spliced cells offset w') : w = w' := by
  apply List.ext_getElem?
  intro k
  rcases Nat.lt_or_ge k w.length with hk | hk
  · rw [← spliced_inside hk h, heq, spliced_inside (hlen ▸ hk) h]
  · rw [List.getElem?_eq_none hk, List.getElem?_eq_none (hlen ▸ hk)]

end

theorem load_of_getElem? {cells : List α} {i : Nat} {x : α} (h : cells[i]? = some x) :
    load (some cells) i = .ok x := by
  obtain ⟨hi, rfl⟩ := List.getElem?_eq_some_iff.mp h
  exact load_some hi

/-- Loops whose bodies agree at the indices they pass are one loop. -/
theorem forUp_congr {body body' : Nat → σ → Run σ} :
    ∀ (count start : Nat) (s : σ),
      (∀ i s, start ≤ i → i < start + count → body i s = body' i s) →
      forUp start count body s = forUp start count body' s := by
  intro count
  induction count with
  | zero =>
    intro _ _ _
    rfl
  | succ count ih =>
    intro start s h
    rw [forUp, forUp, h start s (Nat.le_refl _) (by omega)]
    congr 1
    funext s'
    exact ih (start + 1) s' fun i t hi hlt => h i t (by omega) (by omega)

/-! ## Copying -/

/-- `for (i = 0; i < count; i++) object[target + i] = object[source + i]`. -/
def copyWithin (source target count : Nat) (object : Option (List α)) : Run (Option (List α)) :=
  forUp 0 count (fun i object => do
    let x ← load object (source + i)
    store object (target + i) x) object

/-- Where the cell comes from that the copy leaves at `target + k`. -/
def origin (source target k : Nat) : Nat :=
  if source < target then source + k % (target - source) else source + k

/-- A source at or behind the target is copied as it was. -/
theorem origin_behind {source target : Nat} (h : target ≤ source) (k : Nat) :
    origin source target k = source + k :=
  if_neg (Nat.not_lt.mpr h)

/-- So is one that ends in front of the target. -/
theorem origin_front {source target k : Nat} (h : source + k < target) :
    origin source target k = source + k := by
  rw [origin, if_pos (by omega), Nat.mod_eq_of_lt (by omega)]

/-- Behind the distance the cells repeat. -/
theorem origin_repeats {source target k : Nat} (hlt : source < target)
    (h : target ≤ source + k) :
    origin source target k = origin source target (source + k - target) := by
  rw [origin, origin, if_pos hlt, if_pos hlt, Nat.mod_eq_sub_mod (by omega)]
  congr 2
  omega

/-- No copied cell comes from behind the source. -/
theorem origin_lt {source target k count : Nat} (h : k < count) :
    origin source target k < source + count := by
  have hmod := Nat.mod_le k (target - source)
  unfold origin
  split
  next => omega
  next => omega

/-- **What the loop copies**, whether or not source and target overlap. -/
theorem copyWithin_ok {cells : List α} {source target count : Nat}
    (hsource : source + count ≤ cells.length) (htarget : target + count ≤ cells.length) :
    ∃ w, w.length = count ∧ (∀ k, k < count → w[k]? = cells[origin source target k]?) ∧
      copyWithin source target count (some cells) = .ok (some (spliced cells target w)) := by
  obtain ⟨object, hrun, w, rfl, hlen, horigin⟩ := forUp_inv
    (fun i object => ∃ w, object = some (spliced cells target w) ∧ w.length = i ∧
      ∀ k, k < i → w[k]? = cells[origin source target k]?)
    (fun i object => do
      let x ← load object (source + i)
      store object (target + i) x) count 0 (some cells)
    ⟨[], by rw [spliced_nil], rfl, fun k hk => absurd hk (Nat.not_lt_zero k)⟩ (by
    rintro i _ - hi ⟨w, rfl, rfl, horigin⟩
    rw [Nat.zero_add] at hi
    have hin : origin source target w.length < cells.length := by
      have hlt := @origin_lt source target _ _ hi
      omega
    -- the cell read is an old one, in front of or behind the writer, or one that was copied
    have hread : (spliced cells target w)[source + w.length]?
        = cells[origin source target w.length]? := by
      rcases Nat.lt_or_ge source target with hlt | hge
      · rcases Nat.lt_or_ge (source + w.length) target with hfront | hback
        · rw [spliced_front hfront (by omega), origin_front hfront]
        · have hinside : source + w.length - target < w.length := by omega
          rw [show source + w.length = target + (source + w.length - target) by omega,
            spliced_inside hinside (by omega), horigin _ hinside, ← origin_repeats hlt hback]
      · rw [spliced_behind (by omega) (by omega), origin_behind hge]
    rw [List.getElem?_eq_getElem hin] at hread
    refine ⟨_, by rw [load_of_getElem? hread, ok_bind, store_spliced rfl (by omega)],
      w ++ [cells[origin source target w.length]], rfl, ?_, ?_⟩
    · rw [List.length_append, List.length_singleton]
    · intro k hk
      rcases Nat.lt_succ_iff_lt_or_eq.mp hk with hk | rfl
      · rw [List.getElem?_append_left hk, horigin k hk]
      · rw [List.getElem?_append_right (Nat.le_refl _), Nat.sub_self,
          List.getElem?_eq_getElem hin]
        rfl)
  rw [Nat.zero_add] at hlen horigin
  exact ⟨w, hlen, horigin, hrun⟩

end Lib
