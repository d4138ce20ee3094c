import Mathlib.Logic.Function.Basic
import Mathlib.Data.List.Basic

/-!
# The sessions of a trace

The events of a trace belong to sessions named by a key, and some of them end
theirs; the key may then be used again. `ended` cuts a trace into the sessions
that have come to their end, each as the list of its own events with the ending
one last. A stretch of a trace that leaves no session pending can be cut on its
own.
-/

namespace Sessions

variable {ε κ α : Type} [DecidableEq κ] (key : ε → Option κ) (ends : ε → Bool)

def endedFrom : (κ → List ε) → List ε → List (List ε)
  | _, [] => []
  | pending, x :: xs =>
    match key x with
    | none => endedFrom pending xs
    | some k =>
      if ends x then (pending k ++ [x]) :: endedFrom (Function.update pending k []) xs
      else endedFrom (Function.update pending k (pending k ++ [x])) xs

/-- The events of the sessions that have not ended, by their key. -/
def pendingFrom : (κ → List ε) → List ε → κ → List ε
  | pending, [] => pending
  | pending, x :: xs =>
    match key x with
    | none => pendingFrom pending xs
    | some k =>
      if ends x then pendingFrom (Function.update pending k []) xs
      else pendingFrom (Function.update pending k (pending k ++ [x])) xs

def ended (xs : List ε) : List (List ε) := endedFrom key ends (fun _ => []) xs

/-- No session is left pending. -/
def Complete (xs : List ε) : Prop := pendingFrom key ends (fun _ => []) xs = fun _ => []

variable {key ends} {xs ys : List ε} {x : ε} {k : κ}

theorem endedFrom_append (pending : κ → List ε) (xs ys : List ε) :
    endedFrom key ends pending (xs ++ ys) =
      endedFrom key ends pending xs ++
        endedFrom key ends (pendingFrom key ends pending xs) ys := by
  induction xs generalizing pending with
  | nil => rfl
  | cons x xs ih =>
    cases hk : key x with
    | none => simp only [List.cons_append, endedFrom, pendingFrom, hk, ih]
    | some k =>
      cases he : ends x with
      | true => simp [endedFrom, pendingFrom, hk, he, ih]
      | false => simp [endedFrom, pendingFrom, hk, he, ih]

theorem pendingFrom_append (pending : κ → List ε) (xs ys : List ε) :
    pendingFrom key ends pending (xs ++ ys) =
      pendingFrom key ends (pendingFrom key ends pending xs) ys := by
  induction xs generalizing pending with
  | nil => rfl
  | cons x xs ih =>
    cases hk : key x with
    | none => simp only [List.cons_append, pendingFrom, hk, ih]
    | some k =>
      cases he : ends x with
      | true => simp [pendingFrom, hk, he, ih]
      | false => simp [pendingFrom, hk, he, ih]

theorem ended_append (h : Complete key ends xs) :
    ended key ends (xs ++ ys) = ended key ends xs ++ ended key ends ys := by
  rw [ended, endedFrom_append, h]
  rfl

theorem Complete.append (h : Complete key ends xs) (h' : Complete key ends ys) :
    Complete key ends (xs ++ ys) := by
  rw [Complete, pendingFrom_append, h]
  exact h'

theorem complete_nil : Complete key ends ([] : List ε) := rfl

theorem ended_flatMap (f : α → List ε) {l : List α} (h : ∀ a ∈ l, Complete key ends (f a)) :
    Complete key ends (l.flatMap f) ∧
      ended key ends (l.flatMap f) = l.flatMap fun a => ended key ends (f a) := by
  induction l with
  | nil => exact ⟨complete_nil, rfl⟩
  | cons a l ih =>
    have ha := h a List.mem_cons_self
    obtain ⟨hc, he⟩ := ih fun b hb => h b (List.mem_cons_of_mem _ hb)
    rw [List.flatMap_cons, ended_append ha, he]
    exact ⟨ha.append hc, rfl⟩

theorem running (pending : κ → List ε)
    (h : ∀ x ∈ xs, key x = none ∨ key x = some k ∧ ends x = false) :
    endedFrom key ends pending xs = [] ∧
      pendingFrom key ends pending xs =
        Function.update pending k (pending k ++ xs.filter fun x => key x = some k) := by
  induction xs generalizing pending with
  | nil => simp [endedFrom, pendingFrom]
  | cons x xs ih =>
    have hrest := fun y hy => h y (List.mem_cons_of_mem x hy)
    rcases h x List.mem_cons_self with hn | ⟨hs, he⟩
    · simpa [endedFrom, pendingFrom, hn] using ih pending hrest
    · have hi := ih (Function.update pending k (pending k ++ [x])) hrest
      simpa [endedFrom, pendingFrom, hs, he] using hi

theorem ended_outside (h : ∀ x ∈ xs, key x = none) :
    Complete key ends xs ∧ ended key ends xs = [] := by
  induction xs with
  | nil => exact ⟨complete_nil, rfl⟩
  | cons x xs ih =>
    obtain ⟨hc, he⟩ := ih fun y hy => h y (List.mem_cons_of_mem _ hy)
    have hx := h x List.mem_cons_self
    rw [Complete, ended, pendingFrom, endedFrom]
    simp only [hx]
    exact ⟨hc, he⟩

theorem ended_session (h : ∀ x ∈ xs, key x = none ∨ key x = some k ∧ ends x = false)
    (hk : key x = some k) (he : ends x = true) :
    Complete key ends (xs ++ [x]) ∧
      ended key ends (xs ++ [x]) = [(xs.filter fun x => key x = some k) ++ [x]] := by
  obtain ⟨h1, h2⟩ := running (fun _ => []) h
  rw [Complete, ended, pendingFrom_append, endedFrom_append, h1, h2]
  simp [pendingFrom, endedFrom, hk, he]

end Sessions
