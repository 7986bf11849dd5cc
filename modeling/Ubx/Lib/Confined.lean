import Ubx.Lib.Memory

/-!
# Reads confined to the front of an object

`Confined xs g` says that `g` reads an object that starts with `xs` no further
than `xs`: it returns, and it returns the same whatever cells follow `xs`. With
no cell behind `xs` a read past the front would be a fault, so returning there
rules such a read out; with any cells behind it, the result says that they were
not looked at.

The rules follow the shape of a reader: a bind (`Confined.bind`, where the
second half may use what the first returned on `xs` alone), a test that does
not look at the object (`Confined.ite`), a `NULL` test (`Confined.nullTest`).
-/

namespace Lib

variable {α β γ : Type}

/-- `g` reads nothing but `xs` of an object that starts with `xs`. -/
def Confined (xs : List α) (g : Option (List α) → Run β) : Prop :=
  ∃ b, ∀ more, g (some (xs ++ more)) = .ok b

variable {xs : List α}

theorem Confined.pure (b : β) : Confined xs fun _ => (.ok b : Run β) :=
  ⟨b, fun _ => rfl⟩

/-- A confined read returns on the front alone, and the same on every object
that starts with it. -/
theorem Confined.front {g : Option (List α) → Run β} (h : Confined xs g) :
    ∃ b, g (some xs) = .ok b ∧ ∀ more, g (some (xs ++ more)) = .ok b := by
  obtain ⟨b, hb⟩ := h
  refine ⟨b, ?_, hb⟩
  have hfront := hb []
  rwa [List.append_nil] at hfront

theorem Confined.bind {g : Option (List α) → Run β} {f : Option (List α) → β → Run γ}
    (hg : Confined xs g) (hf : ∀ b, g (some xs) = .ok b → Confined xs fun o => f o b) :
    Confined xs fun o => g o >>= f o := by
  obtain ⟨b, hfront, hb⟩ := hg.front
  obtain ⟨c, hc⟩ := hf b hfront
  refine ⟨c, ?_⟩
  intro more
  show (g (some (xs ++ more)) >>= f (some (xs ++ more))) = .ok c
  rw [hb more]
  exact hc more

/-- A test of something else than the object. The instance may mention the
object, as it does where the test is of another field of the same record. -/
theorem Confined.ite {c : Prop} {test : Option (List α) → Decidable c}
    {g g' : Option (List α) → Run β} (h : c → Confined xs g) (h' : ¬ c → Confined xs g') :
    Confined xs fun o => @ite _ c (test o) (g o) (g' o) := by
  by_cases hc : c
  · obtain ⟨b, hb⟩ := h hc
    exact ⟨b, fun more => (if_pos hc).trans (hb more)⟩
  · obtain ⟨b, hb⟩ := h' hc
    exact ⟨b, fun more => (if_neg hc).trans (hb more)⟩

/-- A `NULL` test of an object that is there. -/
theorem Confined.nullTest {g g' : Option (List α) → Run β} (h : Confined xs g') :
    Confined xs fun o => if o.isNone then g o else g' o := by
  obtain ⟨b, hb⟩ := h
  exact ⟨b, fun more => (if_neg nofun).trans (hb more)⟩

theorem Confined.load {i : Nat} (h : i < xs.length) : Confined xs fun o => load o i :=
  ⟨xs[i], fun _ => load_append h⟩

end Lib
