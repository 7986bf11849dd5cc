import Ubx.Lib.Memory
import Mathlib.Data.List.Forall2

/-!
# Runs of a machine, and simulation

A machine takes one input at a time, returns an output and moves to a new
state. The implementation's step may fault (`Run`), the specification's step is
total. `run` and `trace` are their runs over a list of inputs, one output an
input.

Two rules carry every whole-run fact from a fact about one step:

* `run_inv`: an invariant of the state *and the history so far* that each step
  preserves, and under which no step faults, holds at the end of every run, and
  no run faults;
* `run_simulates`: a relation between the two states that each pair of steps
  preserves, with outputs that answer each other, makes the outputs of the two
  runs answer each other one by one.
-/

namespace Lib

variable {σ τ α β γ ι : Type}

/-- Run a machine whose step may fault. -/
def run (step : σ → α → Run (β × σ)) : σ → List α → Run (List β × σ)
  | s, [] => .ok ([], s)
  | s, a :: as => do
    let (b, s₁) ← step s a
    let (bs, s₂) ← run step s₁ as
    return (b :: bs, s₂)

theorem run_cons {step : σ → α → Run (β × σ)} {s s₁ s₂ : σ} {a : α} {as : List α} {b : β}
    {bs : List β} (hstep : step s a = .ok (b, s₁)) (hrest : run step s₁ as = .ok (bs, s₂)) :
    run step s (a :: as) = .ok (b :: bs, s₂) := by
  simp only [run, hstep, ok_bind, hrest]
  rfl

/-- A run that returns is a first step and a run from where it led. -/
theorem run_cons_inv {step : σ → α → Run (β × σ)} {s s₂ : σ} {a : α} {as : List α}
    {bs : List β} (h : run step s (a :: as) = .ok (bs, s₂)) :
    ∃ b bs' s₁, step s a = .ok (b, s₁) ∧ run step s₁ as = .ok (bs', s₂) ∧ bs = b :: bs' := by
  obtain ⟨⟨b, s₁⟩, hstep, hrest⟩ := bind_eq_ok.mp h
  obtain ⟨⟨bs', s'⟩, hrun, hret⟩ := bind_eq_ok.mp hrest
  cases hret
  exact ⟨b, bs', s₁, hstep, hrun, rfl⟩

/-- Runs compose. -/
theorem run_append {step : σ → α → Run (β × σ)} :
    ∀ {as as' : List α} {s s₁ s₂ : σ} {bs bs' : List β}, run step s as = .ok (bs, s₁) →
      run step s₁ as' = .ok (bs', s₂) → run step s (as ++ as') = .ok (bs ++ bs', s₂)
  | [], as', s, s₁, s₂, bs, bs', h, h' => by
    cases h
    exact h'
  | a :: as, as', s, s₁, s₂, bs, bs', h, h' => by
    obtain ⟨b, cs, s', hstep, hrun, rfl⟩ := run_cons_inv h
    exact run_cons hstep (run_append hrun h')

/-- One output an input. -/
theorem run_length {step : σ → α → Run (β × σ)} :
    ∀ {as : List α} {s s' : σ} {bs : List β}, run step s as = .ok (bs, s') →
      bs.length = as.length
  | [], s, s', bs, h => by
    cases h
    rfl
  | a :: as, s, s', bs, h => by
    obtain ⟨b, cs, s₁, hstep, hrun, rfl⟩ := run_cons_inv h
    rw [List.length_cons, List.length_cons, run_length hrun]

/-- **Invariants over runs.** `J h s`: after the history `h` of inputs and
outputs the state may be `s`. -/
theorem run_inv {step : σ → α → Run (β × σ)} (J : List (α × β) → σ → Prop)
    (hJ : ∀ h s a, J h s → ∃ b s', step s a = .ok (b, s') ∧ J (h ++ [(a, b)]) s') :
    ∀ (as : List α) (h : List (α × β)) (s : σ), J h s →
      ∃ bs s', run step s as = .ok (bs, s') ∧ J (h ++ as.zip bs) s' := by
  intro as
  induction as with
  | nil =>
    intro h s hs
    exact ⟨[], s, rfl, by rwa [List.zip_nil_left, List.append_nil]⟩
  | cons a as ih =>
    intro h s hs
    obtain ⟨b, s₁, hstep, hs₁⟩ := hJ h s a hs
    obtain ⟨bs, s₂, hrun, hs₂⟩ := ih (h ++ [(a, b)]) s₁ hs₁
    refine ⟨b :: bs, s₂, run_cons hstep hrun, ?_⟩
    rw [List.append_assoc] at hs₂
    exact hs₂

/-- The inputs of a history whose outputs satisfy `p`, in order. -/
def kept (p : β → Bool) (h : List (α × β)) : List α := (h.filter fun call => p call.2).map Prod.fst

theorem kept_append_pos {p : β → Bool} (h : List (α × β)) (a : α) {b : β} (hb : p b = true) :
    kept p (h ++ [(a, b)]) = kept p h ++ [a] := by
  have hone : [(a, b)].filter (fun call => p call.2) = [(a, b)] := by simp [hb]
  rw [kept, List.filter_append, List.map_append, hone]
  rfl

theorem kept_append_neg {p : β → Bool} (h : List (α × β)) (a : α) {b : β} (hb : ¬ p b = true) :
    kept p (h ++ [(a, b)]) = kept p h := by
  have hnone : [(a, b)].filter (fun call => p call.2) = [] := by simp [hb]
  rw [kept, List.filter_append, hnone, List.append_nil]
  rfl

/-- Where every output does, all inputs are kept. -/
theorem kept_all {p : β → Bool} {as : List α} {bs : List β} (hlen : bs.length = as.length)
    (hp : ∀ b ∈ bs, p b = true) : kept p (as.zip bs) = as := by
  have hall : ((as.zip bs).filter fun call => p call.2) = as.zip bs :=
    List.filter_eq_self.mpr fun call hcall => hp call.2 (List.of_mem_zip hcall).2
  rw [kept, hall, List.map_fst_zip (Nat.le_of_eq hlen.symm)]

/-! ## Specification machines -/

/-- Run a total machine. -/
def trace (next : τ → ι → γ × τ) : τ → List ι → List γ × τ
  | t, [] => ([], t)
  | t, i :: is => ((next t i).1 :: (trace next (next t i).2 is).1, (trace next (next t i).2 is).2)

theorem length_trace (next : τ → ι → γ × τ) :
    ∀ (is : List ι) (t : τ), (trace next t is).1.length = is.length := by
  intro is
  induction is with
  | nil =>
    intro _
    rfl
  | cons i is ih =>
    intro t
    rw [trace, List.length_cons, ih, List.length_cons]

theorem trace_append (next : τ → ι → γ × τ) :
    ∀ (is js : List ι) (t : τ), trace next t (is ++ js) =
      ((trace next t is).1 ++ (trace next (trace next t is).2 js).1,
        (trace next (trace next t is).2 js).2) := by
  intro is
  induction is with
  | nil =>
    intro _ _
    rfl
  | cons i is ih =>
    intro js t
    rw [List.cons_append, trace, ih js]
    rfl

/-- The states a trace goes through, each with the input it takes there. -/
def visited (next : τ → ι → γ × τ) : τ → List ι → List (τ × ι)
  | _, [] => []
  | t, i :: is => (t, i) :: visited next (next t i).2 is

/-- **Lockstep.** Two machines that go through the same states give outputs that
are related one by one, at the state and the input they come from, when those of
each step are. -/
theorem trace_lockstep {γ' : Type} {next : τ → ι → γ × τ} {next' : τ → ι → γ' × τ}
    {Q : τ × ι → γ × γ' → Prop} (hstate : ∀ t i, (next t i).2 = (next' t i).2)
    (hout : ∀ t i, Q (t, i) ((next t i).1, (next' t i).1)) :
    ∀ (is : List ι) (t : τ),
      List.Forall₂ Q (visited next t is) ((trace next t is).1.zip (trace next' t is).1) ∧
        (trace next t is).2 = (trace next' t is).2 := by
  intro is
  induction is with
  | nil =>
    intro t
    exact ⟨.nil, rfl⟩
  | cons i is ih =>
    intro t
    obtain ⟨hQ, hend⟩ := ih (next t i).2
    have hsame : trace next' t (i :: is)
        = ((next' t i).1 :: (trace next' (next t i).2 is).1,
          (trace next' (next t i).2 is).2) := by
      rw [hstate]
      rfl
    rw [hsame]
    exact ⟨.cons (hout t i) hQ, hend⟩

/-- **Simulation.** A step that follows the specification's up to `R`, where its
output answers the specification's in the sense of `Q`, makes every run follow
the specification's run. Outputs that are not `ok` may be left out of what is
asked of a step, for the runs in which they do not occur. -/
theorem run_simulates {step : σ → α → Run (β × σ)} {next : τ → ι → γ × τ} {inp : α → ι}
    {Q : α × β → γ → Prop} {R : σ → τ → Prop} (ok : γ → Prop)
    (hR : ∀ s t a, ok (next t (inp a)).1 → R s t → ∃ b s', step s a = .ok (b, s') ∧
      Q (a, b) (next t (inp a)).1 ∧ R s' (next t (inp a)).2) :
    ∀ (as : List α) (s : σ) (t : τ), (∀ g ∈ (trace next t (as.map inp)).1, ok g) → R s t →
      ∃ bs s', run step s as = .ok (bs, s') ∧
        List.Forall₂ Q (as.zip bs) (trace next t (as.map inp)).1 ∧
        R s' (trace next t (as.map inp)).2 := by
  intro as
  induction as with
  | nil =>
    intro s t _ h
    exact ⟨[], s, rfl, .nil, h⟩
  | cons a as ih =>
    intro s t hok h
    -- the step answers for the first output, the hypothesis for the others
    obtain ⟨b, s₁, hstep, hQ, h₁⟩ := hR s t a (hok _ (List.mem_cons_self ..)) h
    obtain ⟨bs, s₂, hrun, hQ', h₂⟩ := ih s₁ _
      (fun g hg => hok g (List.mem_cons_of_mem _ hg)) h₁
    exact ⟨b :: bs, s₂, run_cons hstep hrun, .cons hQ hQ', h₂⟩

/-- **Refinement.** A step that returns the specification's output, seen through
`f`, and goes where the specification goes, does so over every run. -/
theorem run_refines {step : σ → α → Run (β × σ)} {next : τ → α → γ × τ} {f : γ → β}
    {R : σ → τ → Prop} (hR : ∀ s t a, R s t →
      ∃ s', step s a = .ok (f (next t a).1, s') ∧ R s' (next t a).2) :
    ∀ (as : List α) (s : σ) (t : τ), R s t →
      ∃ s', run step s as = .ok ((trace next t as).1.map f, s') ∧ R s' (trace next t as).2 := by
  intro as
  induction as with
  | nil =>
    intro s t h
    exact ⟨s, rfl, h⟩
  | cons a as ih =>
    intro s t h
    obtain ⟨s₁, hstep, h₁⟩ := hR s t a h
    obtain ⟨s₂, hrun, h₂⟩ := ih s₁ _ h₁
    exact ⟨s₂, run_cons hstep hrun, h₂⟩

/-- Outputs that agree one by one with the specification's, seen through `f` and
`g`, agree as lists. -/
theorem map_eq_of_answers {δ : Type} {Q : α × β → γ → Prop} {f : β → δ} {g : γ → δ} :
    ∀ {as : List α} {bs : List β} {gs : List γ}, bs.length = as.length →
      (∀ a ∈ as, ∀ b c, Q (a, b) c → f b = g c) → List.Forall₂ Q (as.zip bs) gs →
      bs.map f = gs.map g
  | [], [], [], _, _, _ => rfl
  | a :: as, b :: bs, c :: gs, hlen, hfg, .cons hQ hrest => by
    rw [List.map_cons, List.map_cons, hfg a (List.mem_cons_self ..) b c hQ,
      map_eq_of_answers (Nat.succ.inj hlen)
        (fun a' ha' => hfg a' (List.mem_cons_of_mem _ ha')) hrest]

end Lib
