import Mathlib.Data.List.Basic

/-!
# Self-delimiting words

A stream is words one behind the other, with nothing between them that would say
where one ends. `SelfDelimiting` is what makes such a stream readable: no word
is empty, and what follows a word leaves no doubt which one it was. Then every
list is, in exactly one way, some words and a rest that starts with none
(`parse_existsUnique`), whether or not anybody wrote it as words.
-/

namespace Lib

variable {α ω : Type} {spell : ω → List α}

/-- What the words are spelled as tells them apart, whatever follows. -/
structure SelfDelimiting (spell : ω → List α) : Prop where
  spell_ne : ∀ w, spell w ≠ []
  word_eq : ∀ {w w' rest rest'}, spell w ++ rest = spell w' ++ rest' → w = w'

/-- The list starts with no word. -/
def WordFree (spell : ω → List α) (xs : List α) : Prop :=
  ∀ w rest, xs ≠ spell w ++ rest

/-- Words, and a rest that starts with none. -/
def IsParse (spell : ω → List α) (xs : List α) (parse : List ω × List α) : Prop :=
  xs = parse.1.flatMap spell ++ parse.2 ∧ WordFree spell parse.2

/-- There are no two ways to read a list. -/
theorem parse_unique (h : SelfDelimiting spell) :
    ∀ {ws ws' : List ω} {rest rest' : List α}, WordFree spell rest → WordFree spell rest' →
      ws.flatMap spell ++ rest = ws'.flatMap spell ++ rest' → ws = ws' ∧ rest = rest' := by
  intro ws
  induction ws with
  | nil =>
    rintro (_ | ⟨w', ws'⟩) rest rest' hfree _ heq
    · exact ⟨rfl, heq⟩
    · rw [List.flatMap_cons, List.append_assoc] at heq
      exact absurd heq (hfree _ _)
  | cons w ws ih =>
    rintro (_ | ⟨w', ws'⟩) rest rest' hfree hfree' heq
    · rw [List.flatMap_cons, List.append_assoc] at heq
      exact absurd heq.symm (hfree' _ _)
    · rw [List.flatMap_cons, List.append_assoc, List.flatMap_cons, List.append_assoc] at heq
      obtain rfl := h.word_eq heq
      obtain ⟨rfl, hrest⟩ := ih hfree hfree' (List.append_cancel_left heq)
      exact ⟨rfl, hrest⟩

theorem wordFree_nil (h : SelfDelimiting spell) : WordFree spell [] := by
  intro w rest heq
  exact h.spell_ne w (List.append_eq_nil_iff.mp heq.symm).1

/-- Words are spelled in one way. -/
theorem words_unique (h : SelfDelimiting spell) {ws ws' : List ω}
    (heq : ws.flatMap spell = ws'.flatMap spell) : ws = ws' := by
  refine (parse_unique h (wordFree_nil h) (wordFree_nil h) ?_).1
  rw [heq]

/-- There is a way to read it. -/
theorem parse_exists (h : SelfDelimiting spell) :
    ∀ (n : Nat) (xs : List α), xs.length ≤ n → ∃ parse, IsParse spell xs parse := by
  intro n
  induction n with
  | zero =>
    intro xs hn
    obtain rfl := List.eq_nil_of_length_eq_zero (Nat.le_zero.mp hn)
    exact ⟨([], []), rfl, wordFree_nil h⟩
  | succ n ih =>
    intro xs hn
    by_cases hfree : WordFree spell xs
    · exact ⟨([], xs), rfl, hfree⟩
    · -- a first word, and the way to read what follows it
      simp only [WordFree, not_forall, not_not] at hfree
      obtain ⟨w, rest, rfl⟩ := hfree
      have hpos := List.length_pos_of_ne_nil (h.spell_ne w)
      rw [List.length_append] at hn
      obtain ⟨⟨ws, last⟩, hrest, hfree⟩ := ih rest (by omega)
      refine ⟨(w :: ws, last), ?_, hfree⟩
      rw [List.flatMap_cons, List.append_assoc]
      exact congrArg _ hrest

/-- **Every list has exactly one parse.** -/
theorem parse_existsUnique (h : SelfDelimiting spell) (xs : List α) :
    ∃! parse, IsParse spell xs parse := by
  obtain ⟨parse, hparse⟩ := parse_exists h xs.length xs (Nat.le_refl _)
  refine ⟨parse, hparse, ?_⟩
  intro parse' hparse'
  obtain ⟨hws, hrest⟩ := parse_unique h hparse'.2 hparse.2 (hparse'.1.symm.trans hparse.1)
  exact Prod.ext hws hrest

end Lib
