import Ubx.Lib.Machine

/-!
# Two machines on one schedule

The left machine goes its own way; the right one reads the left one's state as
it goes. A schedule is a list of inputs for the one or the other.

Taken apart, a schedule is a run of the left machine, and a run of the right one
on the state that the left one started in. `interleave_runs` puts the two back
together: where no input of the right machine reads anything that the left one
has changed by then (`Undisturbed`), the schedule answers as the two runs do.
-/

namespace Lib

variable {σ τ α β γ ι : Type}

/-- One input of a schedule. -/
def interleave (left : σ → α → Run (β × σ)) (right : σ → τ → ι → Run (γ × τ)) (s : σ × τ) :
    α ⊕ ι → Run ((β ⊕ γ) × (σ × τ))
  | .inl a => do
    let (b, s₁) ← left s.1 a
    return (.inl b, (s₁, s.2))
  | .inr i => do
    let (c, t₁) ← right s.1 s.2 i
    return (.inr c, (s.1, t₁))

/-- What is the left machine's. -/
def lefts (xs : List (α ⊕ ι)) : List α := xs.filterMap Sum.getLeft?

/-- What is the right machine's. -/
def rights (xs : List (α ⊕ ι)) : List ι := xs.filterMap Sum.getRight?

theorem lefts_append (xs ys : List (α ⊕ ι)) : lefts (xs ++ ys) = lefts xs ++ lefts ys :=
  List.filterMap_append

theorem rights_append (xs ys : List (α ⊕ ι)) : rights (xs ++ ys) = rights xs ++ rights ys :=
  List.filterMap_append

/-- Each input of the right machine is answered as if the left one still were in
its state `s₀`. -/
def Undisturbed (left : σ → α → Run (β × σ)) (right : σ → τ → ι → Run (γ × τ)) (s₀ s : σ) (t : τ)
    (schedule : List (α ⊕ ι)) : Prop :=
  ∀ before i after, schedule = before ++ .inr i :: after → ∀ bs s₁ cs t₁,
    run left s (lefts before) = .ok (bs, s₁) →
    run (right s₀) t (rights before) = .ok (cs, t₁) → right s₁ t₁ i = right s₀ t₁ i

variable {left : σ → α → Run (β × σ)} {right : σ → τ → ι → Run (γ × τ)} {s₀ s s₁ : σ} {t t₁ : τ}

theorem Undisturbed.after_left {a : α} {b : β} {schedule : List (α ⊕ ι)}
    (h : Undisturbed left right s₀ s t (.inl a :: schedule)) (hstep : left s a = .ok (b, s₁)) :
    Undisturbed left right s₀ s₁ t schedule := by
  rintro before i after rfl bs s₂ cs t₂ hleft hright
  exact h (.inl a :: before) i after rfl (b :: bs) s₂ cs t₂ (run_cons hstep hleft) hright

theorem Undisturbed.after_right {i : ι} {c : γ} {schedule : List (α ⊕ ι)}
    (h : Undisturbed left right s₀ s t (.inr i :: schedule)) (hstep : right s₀ t i = .ok (c, t₁)) :
    Undisturbed left right s₀ s t₁ schedule := by
  rintro before j after rfl bs s₂ cs t₂ hleft hright
  exact h (.inr i :: before) j after rfl bs s₂ (c :: cs) t₂ hleft (run_cons hstep hright)

/-- **Interleaving.** An undisturbed schedule returns, the left machine gets the
answers of its own run, the right one those of a run on `s₀`, each in its turn. -/
theorem interleave_runs :
    ∀ (schedule : List (α ⊕ ι)) (s : σ) (t : τ) (bs : List β) (cs : List γ),
      Undisturbed left right s₀ s t schedule →
      run left s (lefts schedule) = .ok (bs, s₁) →
      run (right s₀) t (rights schedule) = .ok (cs, t₁) →
      ∃ outs, run (interleave left right) (s, t) schedule = .ok (outs, (s₁, t₁)) ∧
        lefts outs = bs ∧ rights outs = cs ∧
        outs.map Sum.isLeft = schedule.map Sum.isLeft := by
  intro schedule
  induction schedule with
  | nil =>
    intro s t bs cs _ hleft hright
    cases hleft
    cases hright
    exact ⟨[], rfl, rfl, rfl, rfl⟩
  | cons input schedule ih =>
    intro s t bs cs hund hleft hright
    cases input with
    | inl a =>
      obtain ⟨b, bs, s₂, hstep, hrest, rfl⟩ := run_cons_inv hleft
      obtain ⟨outs, hrun, rfl, hrights, htags⟩ := ih s₂ t bs cs (hund.after_left hstep) hrest hright
      have hone : interleave left right (s, t) (.inl a) = .ok (.inl b, (s₂, t)) := by
        rw [interleave, hstep]
        rfl
      exact ⟨.inl b :: outs, run_cons hone hrun, rfl, hrights, congrArg (true :: ·) htags⟩
    | inr i =>
      obtain ⟨c, cs, t₂, hstep, hrest, rfl⟩ := run_cons_inv hright
      obtain ⟨outs, hrun, hlefts, rfl, htags⟩ := ih s t₂ bs cs (hund.after_right hstep) hleft hrest
      have hone : interleave left right (s, t) (.inr i) = .ok (.inr c, (s, t₂)) := by
        -- nothing has run yet, so the hypothesis is about this very input
        rw [interleave, hund [] i schedule rfl [] s [] t rfl rfl, hstep]
        rfl
      exact ⟨.inr c :: outs, run_cons hone hrun, hlefts, rfl, congrArg (false :: ·) htags⟩

end Lib
