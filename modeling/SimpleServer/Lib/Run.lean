import Mathlib.Data.List.Basic

/-!
# Runs of a fallible step function

A run feeds a list of inputs to a step function and stops at the first error.
`Along` says that every step of a run meets a condition on the state it starts
from and the input it gets; an invariant that such steps preserve then holds
wherever the run arrives. It may also speak of the inputs fed so far, or of a
variable that notes something at every step.
-/

namespace Run

variable {σ α ε : Type} (step : σ → α → Except ε σ)

def run (s : σ) (xs : List α) : Except ε σ := xs.foldlM step s

def Along (P : σ → α → Prop) : σ → List α → Prop
  | _, [] => True
  | s, x :: xs => P s x ∧ ∀ s', step s x = .ok s' → Along P s' xs

variable {step} {P Q : σ → α → Prop} {I : σ → Prop} {s s' : σ} {x : α} {xs ys : List α}

theorem run_cons_ok (h : run step s (x :: xs) = .ok s') :
    ∃ s₁, step s x = .ok s₁ ∧ run step s₁ xs = .ok s' := by
  rw [run, List.foldlM_cons] at h
  cases hx : step s x with
  | error e =>
    rw [hx] at h
    cases h
  | ok s₁ =>
    rw [hx] at h
    exact ⟨s₁, rfl, h⟩

theorem run_cons (h : step s x = .ok s') : run step s (x :: xs) = run step s' xs := by
  rw [run, List.foldlM_cons, h]
  rfl

theorem along_cons (hp : P s x) (hx : step s x = .ok s') (h : Along step P s' xs) :
    Along step P s (x :: xs) := by
  refine ⟨hp, fun s₁ h₁ => ?_⟩
  rw [hx] at h₁
  cases h₁
  exact h

theorem Along.left (h : Along step P s (xs ++ ys)) : Along step P s xs := by
  induction xs generalizing s with
  | nil => exact trivial
  | cons x xs ih => exact ⟨h.1, fun s' hs => ih (h.2 s' hs)⟩

theorem Along.both (hp : Along step P s xs) (hq : Along step Q s xs) :
    Along step (fun s x => P s x ∧ Q s x) s xs := by
  induction xs generalizing s with
  | nil => exact trivial
  | cons x xs ih => exact ⟨⟨hp.1, hq.1⟩, fun s' hs => ih (hp.2 s' hs) (hq.2 s' hs)⟩

theorem along_of_forall (h : ∀ s x, P s x) (s : σ) (xs : List α) : Along step P s xs := by
  induction xs generalizing s with
  | nil => exact trivial
  | cons x xs ih => exact ⟨h s x, fun s' _ => ih s'⟩

theorem invariant (hstep : ∀ s x s', I s → P s x → step s x = .ok s' → I s')
    (h0 : I s) (hp : Along step P s xs) (h : run step s xs = .ok s') : I s' := by
  induction xs generalizing s with
  | nil =>
    cases h
    exact h0
  | cons x xs ih =>
    obtain ⟨s₁, h1, h2⟩ := run_cons_ok h
    exact ih (hstep s x s₁ h0 hp.1 h1) (hp.2 s₁ h1) h2

/-- An invariant that also speaks of the inputs fed so far. -/
theorem history {I : List α → σ → Prop}
    (hstep : ∀ ys s x s', I ys s → step s x = .ok s' → I (ys ++ [x]) s')
    (h0 : I ys s) (h : run step s xs = .ok s') : I (ys ++ xs) s' := by
  induction xs generalizing s ys with
  | nil =>
    cases h
    rwa [List.append_nil]
  | cons x xs ih =>
    obtain ⟨s₁, h1, h2⟩ := run_cons_ok h
    rw [List.append_cons]
    exact ih (hstep ys s x s₁ h0 h1) h2

section Tally

variable {γ : Type}

/-- A history variable: it follows a run, and the run does not look at it. -/
def tally (step : σ → α → Except ε σ) (note : σ → α → γ → γ) : γ → σ → List α → γ
  | acc, _, [] => acc
  | acc, s, x :: xs =>
    match step s x with
    | .error _ => acc
    | .ok s' => tally step note (note s x acc) s' xs

/-- An invariant that also speaks of a history variable. -/
theorem invariant_tally {note : σ → α → γ → γ} {I : σ → γ → Prop}
    (hstep : ∀ s x s' acc, I s acc → P s x → step s x = .ok s' → I s' (note s x acc)) {acc : γ}
    (h0 : I s acc) (hp : Along step P s xs) (h : run step s xs = .ok s') :
    I s' (tally step note acc s xs) := by
  induction xs generalizing s acc with
  | nil =>
    cases h
    exact h0
  | cons x xs ih =>
    obtain ⟨s₁, h1, h2⟩ := run_cons_ok h
    simp only [tally, h1]
    exact ih (hstep s x s₁ acc h0 hp.1 h1) (hp.2 s₁ h1) h2

end Tally

/-- The run arrives in a state that passes a test. -/
def arrives (p : σ → Bool) : Except ε σ → Bool
  | .ok s => p s
  | .error _ => false

theorem arrives_iff {p : σ → Bool} {o : Except ε σ} :
    arrives p o = true ↔ ∃ s, o = .ok s ∧ p s = true := by
  cases o with
  | error e => simp [arrives]
  | ok s => simp [arrives]

instance decidableAlong [∀ s x, Decidable (P s x)] :
    (s : σ) → (xs : List α) → Decidable (Along step P s xs)
  | _, [] => .isTrue trivial
  | s, x :: xs =>
    match h : step s x with
    | .error _ => decidable_of_iff (P s x)
        ⟨fun hp => ⟨hp, fun _ hs => absurd (h.symm.trans hs) nofun⟩, fun hp => hp.1⟩
    | .ok s' =>
      have := decidableAlong s' xs
      decidable_of_iff (P s x ∧ Along step P s' xs)
        ⟨fun hp => along_cons hp.1 h hp.2, fun hp => ⟨hp.1, hp.2 s' h⟩⟩

end Run
