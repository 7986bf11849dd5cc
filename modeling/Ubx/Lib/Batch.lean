import Mathlib.Algebra.BigOperators.Group.List.Basic
import Mathlib.Algebra.GroupWithZero.Nat
import Ubx.Lib.Machine

/-!
# Batches within bounds

A batch is begun and then filled item by item, up to a number of items and up to
a capacity in bytes. `Rules` says what is asked of a beginning and of an item,
and with which error either is refused; the order of the objections is that of
`verdict`. `session` is a specification machine: batches may be begun again and
again, and what is refused changes nothing.

* `session_within`: at every point of a session the batch is within its bounds;
* `all_accepted_iff`: all of a list of items is accepted exactly when it is within
  the bounds as a whole, and no item has a fault of its own.
-/

namespace Lib

/-- Beginnings of type `β`, items of type `α`, errors of type `ε`. -/
structure Rules (β α ε : Type) where
  /-- why a beginning is refused -/
  bar : β → Option ε
  capacity : β → Nat
  /-- bytes in front of the items -/
  header : Nat
  /-- the most items -/
  limit : Nat
  size : α → Nat
  /-- a fault of an item that is seen first of all -/
  fault : α → Option ε
  /-- a fault of an item that is seen where one more may come -/
  clash : α → Option ε
  /-- nothing is begun -/
  idle : ε
  full : ε
  short : ε
  /-- what is begun has room for the bytes in front -/
  room : ∀ b, bar b = none → header ≤ capacity b

/-- A call in a session. -/
inductive BatchCall (β α : Type) where
  | begin (b : β)
  | add (a : α)

/-- The error `e` where `p` holds. -/
def errorIf {ε : Type} (p : Prop) [Decidable p] (e : ε) : Option ε := if p then some e else none

namespace Rules

variable {β α ε : Type} (R : Rules β α ε)

/-- The bytes of a batch. -/
def bytes (items : List α) : Nat := R.header + (items.map R.size).sum

/-- The first objection to one more item. -/
def verdict (capacity : Nat) (items : List α) (a : α) : Option ε :=
  (R.fault a).or ((errorIf (R.limit ≤ items.length) R.full).or
    ((R.clash a).or (errorIf (capacity < R.bytes items + R.size a) R.short)))

/-- One more item, unless there is an objection. -/
def next (capacity : Nat) (items : List α) (a : α) : Option ε × List α :=
  match R.verdict capacity items a with
  | some e => (some e, items)
  | none => (none, items ++ [a])

/-- One call. The state is the beginning of the batch and its items. -/
def session (batch : Option (β × List α)) : BatchCall β α → Option ε × Option (β × List α)
  | .begin b =>
    match R.bar b with
    | some e => (some e, batch)
    | none => (none, some (b, []))
  | .add a =>
    match batch with
    | none => ((R.fault a).or (some R.idle), none)
    | some (b, items) =>
      ((R.next (R.capacity b) items a).1, some (b, (R.next (R.capacity b) items a).2))

/-- An item without a fault. -/
def Sound (a : α) : Prop := R.fault a = none ∧ R.clash a = none

theorem bytes_append (items : List α) (a : α) :
    R.bytes (items ++ [a]) = R.bytes items + R.size a := by
  unfold bytes
  rw [List.map_append, List.sum_append, List.map_singleton, List.sum_singleton, Nat.add_assoc]

theorem bytes_le_append (items items' : List α) : R.bytes items ≤ R.bytes (items ++ items') := by
  unfold bytes
  rw [List.map_append, List.sum_append]
  omega

theorem errorIf_eq_none {p : Prop} [Decidable p] {e : ε} : errorIf p e = none ↔ ¬ p := by
  unfold errorIf
  split
  next hp => exact ⟨fun h => (nomatch h), fun h => absurd hp h⟩
  next hp => exact ⟨fun _ => hp, fun _ => rfl⟩

/-- There is no objection to a sound item for which there is room. -/
theorem verdict_eq_none {capacity : Nat} {items : List α} {a : α} :
    R.verdict capacity items a = none ↔
      R.Sound a ∧ items.length < R.limit ∧ R.bytes items + R.size a ≤ capacity := by
  unfold verdict Sound
  rw [Option.or_eq_none_iff, Option.or_eq_none_iff, Option.or_eq_none_iff, errorIf_eq_none,
    errorIf_eq_none, Nat.not_le, Nat.not_lt]
  exact ⟨fun h => ⟨⟨h.1, h.2.2.1⟩, h.2.1, h.2.2.2⟩, fun h => ⟨h.1.1, h.2.1, h.1.2, h.2.2⟩⟩

/-- An item that is accepted is the last one. -/
theorem next_accepts {capacity : Nat} {items : List α} {a : α}
    (h : R.verdict capacity items a = none) :
    R.next capacity items a = (none, items ++ [a]) := by
  unfold next
  rw [h]

theorem next_refuses {capacity : Nat} {items : List α} {a : α} {e : ε}
    (h : R.verdict capacity items a = some e) :
    R.next capacity items a = (some e, items) := by
  unfold next
  rw [h]

theorem session_begins {batch : Option (β × List α)} {b : β} (h : R.bar b = none) :
    R.session batch (.begin b) = (none, some (b, [])) := by
  unfold session
  dsimp only
  rw [h]

theorem session_bars {batch : Option (β × List α)} {b : β} {e : ε} (h : R.bar b = some e) :
    R.session batch (.begin b) = (some e, batch) := by
  unfold session
  dsimp only
  rw [h]

theorem session_accepts {b : β} {items : List α} {a : α}
    (h : R.verdict (R.capacity b) items a = none) :
    R.session (some (b, items)) (.add a) = (none, some (b, items ++ [a])) := by
  unfold session
  dsimp only
  rw [R.next_accepts h]

theorem session_refuses {b : β} {items : List α} {a : α} {e : ε}
    (h : R.verdict (R.capacity b) items a = some e) :
    R.session (some (b, items)) (.add a) = (some e, some (b, items)) := by
  unfold session
  dsimp only
  rw [R.next_refuses h]

/-! ## Errors -/

/-- Every error that the rules know has the property `p`. -/
structure Errors (p : ε → Prop) : Prop where
  bar : ∀ b e, R.bar b = some e → p e
  fault : ∀ a e, R.fault a = some e → p e
  clash : ∀ a e, R.clash a = some e → p e
  idle : p R.idle
  full : p R.full
  short : p R.short

theorem errorIf_eq_some {p : Prop} [Decidable p] {e e' : ε} :
    errorIf p e = some e' ↔ p ∧ e = e' := by
  unfold errorIf
  split
  next hp => exact ⟨fun h => ⟨hp, Option.some.inj h⟩, fun h => congrArg some h.2⟩
  next hp => exact ⟨fun h => (nomatch h), fun h => absurd h.1 hp⟩

variable {R} in
theorem Errors.verdict {p : ε → Prop} (h : R.Errors p) {capacity : Nat} {items : List α} {a : α}
    {e : ε} (hverdict : R.verdict capacity items a = some e) : p e := by
  unfold Rules.verdict at hverdict
  rcases Option.or_eq_some_iff.mp hverdict with hfault | ⟨-, hverdict⟩
  · exact h.fault a e hfault
  rcases Option.or_eq_some_iff.mp hverdict with hfull | ⟨-, hverdict⟩
  · exact (errorIf_eq_some.mp hfull).2 ▸ h.full
  rcases Option.or_eq_some_iff.mp hverdict with hclash | ⟨-, hshort⟩
  · exact h.clash a e hclash
  · exact (errorIf_eq_some.mp hshort).2 ▸ h.short

variable {R} in
theorem Errors.session {p : ε → Prop} (h : R.Errors p) (batch : Option (β × List α))
    (call : BatchCall β α) {e : ε} (hsession : (R.session batch call).1 = some e) : p e := by
  cases call with
  | begin b =>
    cases hbar : R.bar b with
    | some e' =>
      rw [R.session_bars hbar] at hsession
      exact h.bar b e (hbar.trans hsession)
    | none =>
      rw [R.session_begins hbar] at hsession
      cases hsession
  | add a =>
    match batch with
    | none =>
      rcases Option.or_eq_some_iff.mp hsession with hfault | ⟨-, hidle⟩
      · exact h.fault a e hfault
      · exact Option.some.inj hidle ▸ h.idle
    | some (b, items) =>
      cases hverdict : R.verdict (R.capacity b) items a with
      | some e' =>
        rw [R.session_refuses hverdict] at hsession
        exact h.verdict (hverdict.trans hsession)
      | none =>
        rw [R.session_accepts hverdict] at hsession
        cases hsession

variable {R} in
/-- No other error comes up in a session. -/
theorem Errors.trace {p : ε → Prop} (h : R.Errors p) (calls : List (BatchCall β α)) :
    ∀ (batch : Option (β × List α)) {e : ε}, some e ∈ (trace R.session batch calls).1 → p e := by
  induction calls with
  | nil =>
    intro _ _ hmem
    cases hmem
  | cons call calls ih =>
    intro batch e hmem
    rcases List.mem_cons.mp hmem with hfirst | hrest
    · exact h.session batch call hfirst.symm
    · exact ih _ hrest

/-! ## Within the bounds -/

/-- The items are sound, and there is room for them. -/
structure Within (b : β) (items : List α) : Prop where
  count : items.length ≤ R.limit
  bytes : R.bytes items ≤ R.capacity b
  sound : ∀ a ∈ items, R.Sound a

theorem within_nil {b : β} (h : R.bar b = none) : R.Within b [] :=
  ⟨Nat.zero_le _, R.room b h, fun _ ha => nomatch ha⟩

/-- One more item may come exactly when there is no objection to it. -/
theorem within_append_singleton {b : β} {items : List α} (h : R.Within b items) {a : α} :
    R.Within b (items ++ [a]) ↔ R.verdict (R.capacity b) items a = none := by
  rw [verdict_eq_none]
  constructor
  · intro hmore
    have hcount := hmore.count
    have hbytes := hmore.bytes
    rw [List.length_append, List.length_singleton] at hcount
    rw [bytes_append] at hbytes
    exact ⟨hmore.sound a (by simp), hcount, hbytes⟩
  · rintro ⟨hsound, hcount, hbytes⟩
    refine ⟨?_, ?_, ?_⟩
    · rw [List.length_append, List.length_singleton]
      exact hcount
    · rw [bytes_append]
      exact hbytes
    · intro x hx
      rcases List.mem_append.mp hx with hx | hx
      · exact h.sound x hx
      · rw [List.mem_singleton.mp hx]
        exact hsound

/-- Fewer items are within the bounds, too. -/
theorem Within.left {b : β} {items items' : List α} (h : R.Within b (items ++ items')) :
    R.Within b items := by
  have hcount := h.count
  rw [List.length_append] at hcount
  refine ⟨by omega, Nat.le_trans (R.bytes_le_append items items') h.bytes, ?_⟩
  intro a ha
  exact h.sound a (List.mem_append_left _ ha)

/-- One call keeps a batch within its bounds. -/
theorem session_step {batch : Option (β × List α)}
    (h : ∀ b items, batch = some (b, items) → R.Within b items) (call : BatchCall β α) :
    ∀ b items, (R.session batch call).2 = some (b, items) → R.Within b items := by
  cases call with
  | begin b =>
    cases hbar : R.bar b with
    | some e =>
      rw [R.session_bars hbar]
      exact h
    | none =>
      rw [R.session_begins hbar]
      intro b' items heq
      cases heq
      exact R.within_nil hbar
  | add a =>
    match batch with
    | none => exact h
    | some (b, items) =>
      cases hverdict : R.verdict (R.capacity b) items a with
      | some e =>
        rw [R.session_refuses hverdict]
        exact h
      | none =>
        rw [R.session_accepts hverdict]
        intro b' items' heq
        cases heq
        exact (R.within_append_singleton (h b items rfl)).mpr hverdict

/-- **At every point of a session** the batch is within its bounds. -/
theorem session_within (calls : List (BatchCall β α)) :
    ∀ batch : Option (β × List α), (∀ b items, batch = some (b, items) → R.Within b items) →
      ∀ b items, (trace R.session batch calls).2 = some (b, items) → R.Within b items := by
  induction calls with
  | nil =>
    intro batch h
    exact h
  | cons call calls ih =>
    intro batch h
    exact ih _ (R.session_step h call)

/-! ## Batches accepted whole -/

/-- The errors of adding items in turn. -/
def objections (b : β) (items as : List α) : List (Option ε) :=
  (trace R.session (some (b, items)) (as.map .add)).1

/-- **All of the items are accepted** exactly when the batch with all of them is
within its bounds. -/
theorem all_accepted_iff {b : β} (as : List α) :
    ∀ items : List α, R.Within b items →
      ((∀ r ∈ R.objections b items as, r = none) ↔ R.Within b (items ++ as)) := by
  induction as with
  | nil =>
    intro items h
    rw [List.append_nil]
    exact ⟨fun _ => h, fun _ r hr => nomatch hr⟩
  | cons a as ih =>
    intro items h
    have hsplit : items ++ a :: as = items ++ [a] ++ as := by simp
    unfold objections at ih ⊢
    rw [List.map_cons, trace, hsplit]
    cases hverdict : R.verdict (R.capacity b) items a with
    | some e =>
      rw [R.session_refuses hverdict]
      refine ⟨fun hall => ?_, fun hall => ?_⟩
      · cases hall (some e) (List.mem_cons_self ..)
      · -- then this item would have been accepted
        have hone := (R.within_append_singleton h).mp hall.left
        rw [hverdict] at hone
        cases hone
    | none =>
      rw [R.session_accepts hverdict]
      have hone := (R.within_append_singleton h).mpr hverdict
      rw [← ih (items ++ [a]) hone]
      exact ⟨fun hall r hr => hall r (List.mem_cons_of_mem _ hr),
        fun hall r hr => by
          rcases List.mem_cons.mp hr with rfl | hr
          · rfl
          · exact hall r hr⟩

/-- Then they are all there. -/
theorem all_accepted_end {b : β} (as : List α) :
    ∀ items : List α, (∀ r ∈ R.objections b items as, r = none) →
      (trace R.session (some (b, items)) (as.map .add)).2 = some (b, items ++ as) := by
  induction as with
  | nil =>
    intro items _
    rw [List.append_nil]
    rfl
  | cons a as ih =>
    intro items hall
    have hsplit : items ++ a :: as = items ++ [a] ++ as := by simp
    unfold objections at ih hall
    rw [List.map_cons, trace] at hall ⊢
    rw [hsplit]
    cases hverdict : R.verdict (R.capacity b) items a with
    | some e =>
      rw [R.session_refuses hverdict] at hall
      cases hall (some e) (List.mem_cons_self ..)
    | none =>
      rw [R.session_accepts hverdict] at hall ⊢
      exact ih _ fun r hr => hall r (List.mem_cons_of_mem _ hr)

/-- A batch begun and filled without an objection is one within its bounds. -/
theorem whole_accepted_iff (b : β) (as : List α) :
    (∀ r ∈ (trace R.session none (.begin b :: as.map .add)).1, r = none) ↔
      R.bar b = none ∧ R.Within b as := by
  rw [trace]
  cases hbar : R.bar b with
  | some e =>
    rw [R.session_bars hbar]
    refine ⟨fun hall => ?_, fun h => ?_⟩
    · cases hall (some e) (List.mem_cons_self ..)
    · cases h.1
  | none =>
    rw [R.session_begins hbar]
    have hiff := R.all_accepted_iff as [] (R.within_nil hbar)
    rw [List.nil_append] at hiff
    rw [← hiff]
    refine ⟨fun hall => ⟨rfl, fun r hr => hall r (List.mem_cons_of_mem _ hr)⟩, fun hall r hr => ?_⟩
    rcases List.mem_cons.mp hr with rfl | hr
    · rfl
    · exact hall.2 r hr

theorem whole_accepted_end {b : β} {as : List α}
    (h : ∀ r ∈ (trace R.session none (.begin b :: as.map .add)).1, r = none) :
    (trace R.session none (.begin b :: as.map .add)).2 = some (b, as) := by
  have hbar := ((R.whole_accepted_iff b as).mp h).1
  rw [trace, R.session_begins hbar] at h ⊢
  exact R.all_accepted_end as [] fun r hr => h r (List.mem_cons_of_mem _ hr)

end Rules

end Lib
