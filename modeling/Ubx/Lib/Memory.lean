/-!
# Byte objects, checked accesses and counted loops

A C function that reads or writes through a pointer has a defined result only
while every access stays inside the object the pointer refers to. `Run` keeps
that visible: an access outside the object, or through a pointer to no object,
ends the run with a `Fault`, and a theorem that a run is `.ok` says that every
access of it was in bounds.

An object is the list of its cells. `none` is a pointer to no object: `NULL`,
or an integer that was turned into a pointer. Cells are of any type, so the
same rules serve an array of words.

`written cells w` is the shape all builders leave behind: the first `w.length`
cells hold `w`, every later cell is what it was. A store at `w.length` extends
`w` by one element (`store_written`), which is the whole frame argument of an
append-only writer.

`forUp` is the counted `for` loop, with its invariant rule `forUp_inv`.
-/

namespace Lib

/-- Why an access has no defined result, with the offset it was made at. -/
inductive Fault where
  /-- the pointer refers to no object -/
  | noObject (offset : Nat)
  /-- the object has no cell at this offset -/
  | outOfBounds (offset : Nat)
  deriving DecidableEq, Repr

/-- What a C function does: it returns, or it makes an undefined access. -/
abbrev Run := Except Fault

instance {α : Type} [DecidableEq α] : DecidableEq (Run α)
  | .ok a, .ok b => decidable_of_iff (a = b) ⟨fun h => h ▸ rfl, fun h => Except.ok.inj h⟩
  | .error a, .error b => decidable_of_iff (a = b) ⟨fun h => h ▸ rfl, fun h => Except.error.inj h⟩
  | .ok _, .error _ => .isFalse (fun h => nomatch h)
  | .error _, .ok _ => .isFalse (fun h => nomatch h)

variable {α σ : Type}

@[simp] theorem ok_bind {β : Type} (a : α) (f : α → Run β) :
    ((Except.ok a : Run α) >>= f) = f a := rfl

/-- A bind that returns comes from a first half that returns. -/
theorem bind_eq_ok {β : Type} {x : Run α} {f : α → Run β} {b : β} :
    (x >>= f) = .ok b ↔ ∃ a, x = .ok a ∧ f a = .ok b := by
  cases x with
  | error e => exact ⟨fun h => (nomatch h), fun ⟨_, h, _⟩ => (nomatch h)⟩
  | ok a => exact ⟨fun h => ⟨a, rfl, h⟩, fun ⟨_, ha, hb⟩ => Except.ok.inj ha ▸ hb⟩

/-! ## One access -/

/-- `*pointer`, for a pointer to a record. -/
def deref (pointer : Option α) : Run α :=
  match pointer with
  | none => .error (.noObject 0)
  | some x => .ok x

/-- The `NULL` test of a pointer to something. -/
theorem not_null (x : α) : ¬ (some x).isNone = true := Bool.false_ne_true

/-- `object[i]`. -/
def load (object : Option (List α)) (i : Nat) : Run α :=
  match object with
  | none => .error (.noObject i)
  | some cells => if h : i < cells.length then .ok cells[i] else .error (.outOfBounds i)

/-- `object[i] = x`. -/
def store (object : Option (List α)) (i : Nat) (x : α) : Run (Option (List α)) :=
  match object with
  | none => .error (.noObject i)
  | some cells =>
    if i < cells.length then .ok (some (cells.set i x)) else .error (.outOfBounds i)

@[simp] theorem deref_some (x : α) : deref (some x) = .ok x := rfl

theorem load_some {cells : List α} {i : Nat} (h : i < cells.length) :
    load (some cells) i = .ok cells[i] := by
  rw [load, dif_pos h]

/-- A load that returns was in bounds. -/
theorem load_eq_ok {cells : List α} {i : Nat} {x : α} :
    load (some cells) i = .ok x ↔ ∃ h : i < cells.length, cells[i] = x := by
  constructor
  · intro h
    unfold load at h
    dsimp only at h
    split at h
    next hi => exact ⟨hi, Except.ok.inj h⟩
    next => cases h
  · rintro ⟨hi, rfl⟩
    exact load_some hi

theorem store_some {cells : List α} {i : Nat} (h : i < cells.length) (x : α) :
    store (some cells) i x = .ok (some (cells.set i x)) := by
  rw [store, if_pos h]

/-- The pointer refers to an object of `n` cells. -/
def Sized (n : Nat) (object : Option (List α)) : Prop :=
  ∃ cells, object = some cells ∧ cells.length = n

/-- A store that returns was in bounds of an object. -/
theorem store_eq_ok {object object' : Option (List α)} {i : Nat} {x : α} :
    store object i x = .ok object' ↔
      ∃ cells, object = some cells ∧ i < cells.length ∧ object' = some (cells.set i x) := by
  constructor
  · intro h
    cases object with
    | none => cases h
    | some cells =>
      unfold store at h
      dsimp only at h
      split at h
      next hi => exact ⟨cells, rfl, hi, (Except.ok.inj h).symm⟩
      next => cases h
  · rintro ⟨cells, rfl, hi, rfl⟩
    exact store_some hi x

/-- And it left the object its size. -/
theorem store_sized {n i : Nat} {x : α} {object object' : Option (List α)}
    (h : store object i x = .ok object') (hn : Sized n object) : i < n ∧ Sized n object' := by
  obtain ⟨cells, rfl, rfl⟩ := hn
  obtain ⟨cells', hcells, hi, rfl⟩ := store_eq_ok.mp h
  cases hcells
  exact ⟨hi, _, rfl, List.length_set⟩

/-- A load in bounds of a prefix reads the prefix, whatever follows it. -/
theorem load_append {xs ys : List α} {i : Nat} (h : i < xs.length) :
    load (some (xs ++ ys)) i = .ok xs[i] := by
  rw [load_some (by rw [List.length_append]; omega), List.getElem_append_left h]

theorem length_window {xs : List α} {i n : Nat} (h : i + n ≤ xs.length) :
    ((xs.drop i).take n).length = n := by
  rw [List.length_take, List.length_drop]
  omega

/-- What lies behind a prefix does not show in a field of it. -/
theorem field_front {xs : List α} {i n : Nat} (h : i + n ≤ xs.length) (more : List α) :
    ((xs ++ more).drop i).take n = (xs.drop i).take n := by
  have hfit : n ≤ (xs.drop i).length := by
    rw [List.length_drop]
    omega
  rw [List.drop_append_of_le_length (by omega)]
  exact List.take_append_of_le_length hfit

/-! ## An append-only writer -/

/-- The object `cells` after its first `w.length` cells were overwritten by `w`. -/
def written (cells w : List α) : List α := w ++ cells.drop w.length

theorem written_nil (cells : List α) : written cells [] = cells := rfl

theorem length_written {cells w : List α} (h : w.length ≤ cells.length) :
    (written cells w).length = cells.length := by
  rw [written, List.length_append, List.length_drop]
  omega

theorem take_written (cells w : List α) : (written cells w).take w.length = w := by
  rw [written, List.take_left]

/-- What lies behind the writer's position is what it was. -/
theorem drop_written {cells w : List α} {n : Nat} (h : w.length ≤ n) :
    (written cells w).drop n = cells.drop n := by
  rw [written, List.drop_append, List.drop_of_length_le h, List.nil_append, List.drop_drop,
    Nat.add_sub_of_le h]

/-- What is read back below the writer's position is what it wrote. -/
theorem load_written {cells w : List α} {i : Nat} (h : i < w.length) :
    load (some (written cells w)) i = .ok w[i] :=
  load_append h

/-- The writer's next store: `w` grows by `x` and no later cell changes. -/
theorem store_written {cells w : List α} {i : Nat} (hi : i = w.length) (h : i < cells.length)
    (x : α) : store (some (written cells w)) i x = .ok (some (written cells (w ++ [x]))) := by
  subst hi
  rw [store_some (by rw [length_written (by omega)]; exact h), written, written,
    List.set_append_right _ _ (Nat.le_refl _), Nat.sub_self, List.drop_eq_getElem_cons h,
    List.set_cons_zero, List.length_append, List.length_singleton, List.append_assoc,
    List.singleton_append]

/-! ## Counted loops -/

/-- `for (i = start; i < start + count; i++) body`. -/
def forUp (start : Nat) : (count : Nat) → (Nat → σ → Run σ) → σ → Run σ
  | 0, _, s => .ok s
  | count + 1, body, s => do
    let s' ← body start s
    forUp (start + 1) count body s'

/-- The invariant rule: a body that preserves `I` from each index to the next
makes a loop that returns, and whose result satisfies `I` at the end. -/
theorem forUp_inv (I : Nat → σ → Prop) (body : Nat → σ → Run σ) :
    ∀ (count start : Nat) (s : σ), I start s →
      (∀ i s, start ≤ i → i < start + count → I i s → ∃ s', body i s = .ok s' ∧ I (i + 1) s') →
      ∃ s', forUp start count body s = .ok s' ∧ I (start + count) s' := by
  intro count
  induction count with
  | zero =>
    intro start s hs _
    exact ⟨s, rfl, hs⟩
  | succ count ih =>
    intro start s hs hbody
    obtain ⟨s₁, hb, hs₁⟩ := hbody start s (Nat.le_refl _) (by omega) hs
    obtain ⟨s₂, hf, hs₂⟩ := ih (start + 1) s₁ hs₁
      (fun i t hi hlt => hbody i t (by omega) (by omega))
    refine ⟨s₂, ?_, by rw [show start + (count + 1) = start + 1 + count by omega]; exact hs₂⟩
    rw [forUp, hb]
    exact hf

/-- A loop that returns made every one of its passes. -/
theorem forUp_pass (I : σ → Prop) (body : Nat → σ → Run σ)
    (hI : ∀ i s s', body i s = .ok s' → I s → I s') :
    ∀ (count start : Nat) (s s' : σ), forUp start count body s = .ok s' → I s →
      I s' ∧ ∀ i, start ≤ i → i < start + count → ∃ t t', I t ∧ body i t = .ok t' := by
  intro count
  induction count with
  | zero =>
    intro start s s' h hs
    cases h
    exact ⟨hs, fun i h1 h2 => absurd h2 (by omega)⟩
  | succ count ih =>
    intro start s s' h hs
    obtain ⟨t, hb, hf⟩ := bind_eq_ok.mp h
    obtain ⟨hs', hrest⟩ := ih (start + 1) t s' hf (hI _ _ _ hb hs)
    refine ⟨hs', ?_⟩
    intro i h1 h2
    rcases Nat.eq_or_lt_of_le h1 with rfl | hlt
    · exact ⟨s, t, hs, hb⟩
    · exact hrest i hlt (by omega)

/-- Copying a list into an object from `offset` on, in order. -/
def storeRange (object : Option (List α)) (offset : Nat) : List α → Run (Option (List α))
  | [] => return object
  | x :: xs => do
    let object' ← store object offset x
    storeRange object' (offset + 1) xs

/-- The writer's next run of stores. -/
theorem storeRange_written {cells : List α} :
    ∀ (xs w : List α), w.length + xs.length ≤ cells.length →
      storeRange (some (written cells w)) w.length xs = .ok (some (written cells (w ++ xs))) := by
  intro xs
  induction xs with
  | nil =>
    intro w _
    rw [List.append_nil]; rfl
  | cons x xs ih =>
    intro w h
    rw [List.length_cons] at h
    rw [storeRange, store_written rfl (by omega), ok_bind]
    have hrest : storeRange (some (written cells (w ++ [x]))) (w ++ [x]).length xs
        = .ok (some (written cells (w ++ [x] ++ xs))) :=
      ih (w ++ [x]) (by rw [List.length_append, List.length_singleton]; omega)
    rwa [List.length_append, List.append_assoc] at hrest

/-- Overwriting every cell. -/
theorem storeRange_all {cells xs : List α} (h : xs.length = cells.length) :
    storeRange (some cells) 0 xs = .ok (some xs) := by
  have hrun := @storeRange_written _ cells xs [] (by rw [List.length_nil]; omega)
  rwa [List.nil_append, written_nil, List.length_nil, written, h, List.drop_length,
    List.append_nil] at hrun

/-- Copying a list into the middle of an object: it is found there, and nothing
else changes. -/
theorem storeRange_middle {cells xs : List α} {offset : Nat}
    (h : offset + xs.length ≤ cells.length) :
    ∃ cells', storeRange (some cells) offset xs = .ok (some cells') ∧
      cells'.length = cells.length ∧ (cells'.drop offset).take xs.length = xs ∧
      cells'.take offset = cells.take offset ∧
      cells'.drop (offset + xs.length) = cells.drop (offset + xs.length) := by
  have hfront : (cells.take offset).length = offset := by
    rw [List.length_take]
    omega
  have hlen : (cells.take offset ++ xs).length = offset + xs.length := by
    rw [List.length_append, hfront]
  -- the writer stands behind the front, which is as it was
  have hrun := @storeRange_written _ cells xs (cells.take offset) (by rw [hfront]; exact h)
  have hcells : written cells (cells.take offset) = cells := by
    rw [written, hfront, List.take_append_drop]
  rw [hcells, hfront] at hrun
  refine ⟨_, hrun, length_written (by rw [hlen]; exact h), ?_, ?_, drop_written (Nat.le_of_eq hlen)⟩
  · rw [written, List.append_assoc, List.drop_left' hfront, List.take_left]
  · rw [written, List.append_assoc, List.take_left' hfront]

/-! ## Arrays inside a record

An array member of a record has its size in its type; a store outside of it is
a fault all the same. `overwrite` is to such an array what `written` is to an
object.
-/

/-- `array[i] = x`. -/
def storeAt {n : Nat} (array : Vector α n) (i : Nat) (x : α) : Run (Vector α n) :=
  if h : i < n then .ok (array.set i x) else .error (.outOfBounds i)

/-- The array after its front was overwritten by `w`. -/
def overwrite {n : Nat} (array : Vector α n) (w : List α) : Vector α n :=
  Vector.ofFn fun i => w[i.val]?.getD array[i]

theorem getElem_overwrite {n i : Nat} (array : Vector α n) (w : List α) (h : i < n) :
    (overwrite array w)[i] = w[i]?.getD array[i] :=
  Vector.getElem_ofFn h

theorem overwrite_nil {n : Nat} (array : Vector α n) : overwrite array [] = array := by
  apply Vector.ext
  intro i hi
  rw [getElem_overwrite]
  rfl

/-- As an object, the array is its front and what was behind it. -/
theorem toList_overwrite {n : Nat} (array : Vector α n) {w : List α} (h : w.length ≤ n) :
    (overwrite array w).toList = written array.toList w := by
  apply List.ext_getElem
  · rw [length_written (by rw [Vector.length_toList]; exact h), Vector.length_toList,
      Vector.length_toList]
  · intro i hi hw
    rw [Vector.length_toList] at hi
    rw [Vector.getElem_toList, getElem_overwrite]
    rcases Nat.lt_or_ge i w.length with hlt | hge
    · rw [List.getElem?_eq_getElem hlt, Option.getD_some]
      exact (List.getElem_append_left hlt).symm
    · have hbehind : (written array.toList w)[i] = array[i] := by
        simp only [written, List.getElem_append_right hge, List.getElem_drop,
          Nat.add_sub_cancel' hge, Vector.getElem_toList]
      rw [List.getElem?_eq_none hge, Option.getD_none, hbehind]

/-- A write that fills the array leaves nothing of what was there. -/
theorem overwrite_toList {n : Nat} (array : Vector α n) {w : List α} (h : w.length = n) :
    (overwrite array w).toList = w := by
  rw [toList_overwrite array (Nat.le_of_eq h), written, h,
    List.drop_eq_nil_of_le (Nat.le_of_eq Vector.length_toList), List.append_nil]

/-- The next store behind the front. -/
theorem storeAt_overwrite {n i : Nat} {array : Vector α n} {w : List α} (hi : i = w.length)
    (h : i < n) (x : α) :
    storeAt (overwrite array w) i x = .ok (overwrite array (w ++ [x])) := by
  rw [storeAt, dif_pos h]
  apply congrArg Except.ok
  apply Vector.ext
  intro j hj
  rw [Vector.getElem_set, getElem_overwrite, getElem_overwrite]
  -- behind the new element, at it, or in front of it
  rcases Nat.lt_trichotomy i j with hlt | rfl | hgt
  · have hpast : (w ++ [x])[j]? = none := by
      apply List.getElem?_eq_none
      rw [List.length_append, List.length_singleton]
      omega
    rw [if_neg (by omega), hpast, List.getElem?_eq_none (by omega)]
  · rw [if_pos rfl, List.getElem?_append_right (by omega), ← hi, Nat.sub_self]
    rfl
  · rw [if_neg (by omega), List.getElem?_append_left (by omega)]

/-- A loop that stores the elements of `w` one by one overwrites the front. -/
theorem forUp_storeAt {n : Nat} (array : Vector α n) {w : List α} (hw : w.length ≤ n)
    {body : Nat → Vector α n → Run (Vector α n)}
    (hbody : ∀ (i : Nat) (h : i < w.length) (a : Vector α n), body i a = storeAt a i w[i]) :
    forUp 0 w.length body array = .ok (overwrite array w) := by
  obtain ⟨array', hrun, harray⟩ := forUp_inv (fun i a => a = overwrite array (w.take i)) body
    w.length 0 array (overwrite_nil array).symm (by
    intro i a _ hi ha
    subst ha
    rw [Nat.zero_add] at hi
    have hfront : i = (w.take i).length := by
      rw [List.length_take]
      omega
    refine ⟨_, by rw [hbody i hi, storeAt_overwrite hfront (by omega)], ?_⟩
    rw [List.take_append_getElem hi])
  rw [hrun, harray, Nat.zero_add, List.take_length]

/-- `memcpy(array, object + offset, count)`. -/
def copyInto {n : Nat} (array : Vector α n) (object : Option (List α)) (offset count : Nat) :
    Run (Vector α n) :=
  forUp 0 count (fun i array => do
    let x ← load object (offset + i)
    storeAt array i x) array

theorem copyInto_some {n : Nat} {array : Vector α n} {cells : List α} {offset count : Nat}
    (h : offset + count ≤ cells.length) (hn : count ≤ n) :
    copyInto array (some cells) offset count
      = .ok (overwrite array ((cells.drop offset).take count)) := by
  have hlen := length_window h
  have hrun := forUp_storeAt array (w := (cells.drop offset).take count) (by rw [hlen]; exact hn)
    (fun i hi a => by
      show (do
        let x ← load (some cells) (offset + i)
        storeAt a i x) = _
      rw [hlen] at hi
      rw [load_some (by omega), ok_bind, List.getElem_take, List.getElem_drop])
  rwa [hlen] at hrun

/-- A copy out of a prefix, whatever follows it. -/
theorem copyInto_front {n offset count : Nat} {array : Vector α n} {xs : List α}
    (h : offset + count ≤ xs.length) (hn : count ≤ n) (more : List α) :
    copyInto array (some (xs ++ more)) offset count
      = .ok (overwrite array ((xs.drop offset).take count)) := by
  rw [copyInto_some (by rw [List.length_append]; omega) hn, field_front h]

end Lib
