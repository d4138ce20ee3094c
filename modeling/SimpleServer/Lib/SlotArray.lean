import Mathlib.Data.List.Perm.Basic
import Mathlib.Data.List.Nodup
import Mathlib.Logic.Function.Basic
import Mathlib.Order.Bounds.Basic
import Mathlib.Algebra.Order.Ring.Nat

/-!
# Dense slot arrays with removal by moving the last slot

The live part of an array is the list of its slots between two bounds. Adding
at the end appends to that list; removing slot `i` by moving the last slot
into it turns the list behind `i` into `backToFront` of itself, which is a
permutation. A pass over the array that stays at `i` after a removal visits
every live slot exactly once: the visits form a permutation (`Sweeps.perm`),
and what is left is exactly what the visits kept.

Read as a map from keys, the live part changes by one insertion, deletion or
update. An array that doubles when it is full has the least size that was
enough for the most slots that were ever live at once.
-/

namespace SlotArray

variable {α κ : Type}

def live (a : ℕ → α) (lo hi : ℕ) : List α := (List.range' lo (hi - lo)).map a

def backToFront : List α → List α
  | [] => []
  | x :: xs => (x :: xs).getLast (List.cons_ne_nil x xs) :: (x :: xs).dropLast

theorem backToFront_concat (xs : List α) (x : α) : backToFront (xs ++ [x]) = x :: xs := by
  cases xs with
  | nil => rfl
  | cons y ys =>
    have hl : ((y :: ys) ++ [x]).dropLast = y :: ys := List.dropLast_concat
    rw [List.cons_append] at hl ⊢
    simp [backToFront, hl]

theorem backToFront_perm (xs : List α) : (backToFront xs).Perm xs := by
  rcases List.eq_nil_or_concat xs with h | ⟨ys, y, h⟩
  · subst h
    exact List.Perm.nil
  · subst h
    rw [List.concat_eq_append, backToFront_concat]
    exact (List.perm_append_singleton y ys).symm

section Live

variable {a b : ℕ → α} {lo mid hi : ℕ}

theorem mem_live {x : α} : x ∈ live a lo hi ↔ ∃ i, lo ≤ i ∧ i < hi ∧ a i = x := by
  simp only [live, List.mem_map, List.mem_range'_1]
  constructor
  · intro h
    obtain ⟨i, hi', hx⟩ := h
    exact ⟨i, hi'.1, by omega, hx⟩
  · intro h
    obtain ⟨i, h1, h2, hx⟩ := h
    exact ⟨i, ⟨h1, by omega⟩, hx⟩

theorem live_of_le (h : hi ≤ lo) : live a lo hi = [] := by
  simp [live, Nat.sub_eq_zero_of_le h]

theorem live_length : (live a lo hi).length = hi - lo := by simp [live]

theorem live_append (h1 : lo ≤ mid) (h2 : mid ≤ hi) :
    live a lo hi = live a lo mid ++ live a mid hi := by
  have hl : hi - lo = (mid - lo) + (hi - mid) := by omega
  have hm : lo + 1 * (mid - lo) = mid := by omega
  have hr := @List.range'_append lo (mid - lo) (hi - mid) 1
  rw [hm] at hr
  rw [live, live, live, hl, ← List.map_append, hr]

theorem live_singleton (i : ℕ) : live a i (i + 1) = [a i] := by simp [live]

theorem live_cons (h : lo < hi) : live a lo hi = a lo :: live a (lo + 1) hi := by
  rw [live_append (Nat.le_succ lo) h, live_singleton]
  rfl

theorem live_concat (h : lo ≤ hi) : live a lo (hi + 1) = live a lo hi ++ [a hi] := by
  rw [live_append h (Nat.le_succ hi), live_singleton]

theorem live_congr (h : ∀ i, lo ≤ i → i < hi → a i = b i) : live a lo hi = live b lo hi := by
  apply List.map_congr_left
  intro i hi'
  rw [List.mem_range'_1] at hi'
  exact h i hi'.1 (by omega)

theorem live_update_of_lt {i : ℕ} (x : α) (h : hi ≤ i) :
    live (Function.update a i x) lo hi = live a lo hi :=
  live_congr fun j _ h2 => Function.update_of_ne (by omega) x a

theorem live_update_of_gt {i : ℕ} (x : α) (h : i < lo) :
    live (Function.update a i x) lo hi = live a lo hi :=
  live_congr fun j h1 _ => Function.update_of_ne (by omega) x a

theorem live_update {i : ℕ} (x : α) (h1 : lo ≤ i) (h2 : i < hi) :
    live (Function.update a i x) lo hi = live a lo i ++ x :: live a (i + 1) hi := by
  rw [live_append h1 h2.le, live_cons h2, live_update_of_lt x le_rfl,
    live_update_of_gt x (Nat.lt_succ_self i), Function.update_self]

theorem live_push (x : α) (h : lo ≤ hi) :
    live (Function.update a hi x) lo (hi + 1) = live a lo hi ++ [x] := by
  rw [live_concat h, live_update_of_lt x le_rfl, Function.update_self]

theorem live_moveLast {i : ℕ} (h : i < hi) :
    live (Function.update a i (a (hi - 1))) i (hi - 1) = backToFront (live a (i + 1) hi) := by
  obtain ⟨n, rfl⟩ : ∃ n, hi = n + 1 := ⟨hi - 1, by omega⟩
  simp only [Nat.add_sub_cancel]
  rcases Nat.lt_or_ge i n with hin | hin
  · rw [live_update _ le_rfl hin, live_of_le le_rfl, live_concat hin, backToFront_concat]
    rfl
  · rw [live_of_le hin, live_of_le (by omega)]
    rfl

end Live

section Sweep

/-- The order in which a pass visits the pending slots, given what each visit
leaves in its slot. -/
inductive Sweeps (f : α → Option α) : List α → List α → Prop where
  | nil : Sweeps f [] []
  | keep {x y : α} {rest order : List α} : f x = some y → Sweeps f rest order →
      Sweeps f (x :: rest) (x :: order)
  | drop {x : α} {rest order : List α} : f x = none → Sweeps f (backToFront rest) order →
      Sweeps f (x :: rest) (x :: order)

theorem Sweeps.perm {f : α → Option α} {pending order : List α} (h : Sweeps f pending order) :
    order.Perm pending := by
  induction h with
  | nil => exact List.Perm.nil
  | keep _ _ ih => exact ih.cons _
  | drop _ _ ih => exact (ih.trans (backToFront_perm _)).cons _

end Sweep

theorem perm_concat {α : Type*} (x : α) (xs ys : List α) :
    (xs ++ x :: ys).Perm ((xs ++ ys) ++ [x]) := by
  simpa using List.perm_middle.trans (List.perm_append_singleton x (xs ++ ys)).symm

theorem key_notMem {α κ : Type*} {key : α → κ} {x : α} {xs ys : List α}
    (hn : ((xs ++ x :: ys).map key).Nodup) : key x ∉ (xs ++ ys).map key := by
  have h := ((perm_concat x xs ys).map key).nodup_iff.mp hn
  rw [List.map_append, List.nodup_append] at h
  intro hm
  exact h.2.2 _ hm _ (by simp) rfl

section Keyed

variable [DecidableEq κ] (key : α → κ)

/-- The live part as a map from keys. -/
def view (xs : List α) (k : κ) : Option α := xs.find? (fun x => key x = k)

variable {key} {xs ys : List α} {x y : α} {k : κ}

theorem key_of_view (h : view key xs k = some x) : x ∈ xs ∧ key x = k := by
  have hk := List.find?_some h
  exact ⟨List.mem_of_find?_eq_some h, by simpa using hk⟩

theorem view_eq_some (hn : (xs.map key).Nodup) : view key xs k = some x ↔ x ∈ xs ∧ key x = k := by
  constructor
  · exact key_of_view
  · intro h
    obtain ⟨hx, rfl⟩ := h
    have hs : (view key xs (key x)).isSome = true := by
      rw [view, List.find?_isSome]
      exact ⟨x, hx, by simp⟩
    obtain ⟨y, hy⟩ := Option.isSome_iff_exists.mp hs
    obtain ⟨hym, hyk⟩ := key_of_view hy
    rw [hy, List.inj_on_of_nodup_map hn hym hx hyk]

theorem view_eq_none : view key xs k = none ↔ k ∉ xs.map key := by
  rw [view, List.find?_eq_none]
  simp

theorem view_perm (hn : (xs.map key).Nodup) (hp : xs.Perm ys) : view key xs = view key ys := by
  funext k
  apply Option.ext
  intro x
  rw [view_eq_some hn, view_eq_some ((hp.map key).nodup_iff.mp hn), hp.mem_iff]

theorem view_append (k : κ) : view key (xs ++ ys) k = (view key xs k).or (view key ys k) := by
  simp [view, List.find?_append]

theorem view_concat (h : key x ∉ xs.map key) :
    view key (xs ++ [x]) = Function.update (view key xs) (key x) (some x) := by
  funext k
  rw [view_append]
  rcases eq_or_ne k (key x) with hk | hk
  · subst hk
    rw [view_eq_none.mpr h, Function.update_self]
    simp [view]
  · rw [Function.update_of_ne hk]
    have hs : view key [x] k = none := view_eq_none.mpr (by simpa using hk)
    rw [hs, Option.or_none]

theorem view_replace (hn : ((xs ++ x :: ys).map key).Nodup) (hk : key y = key x) :
    view key (xs ++ y :: ys) = Function.update (view key (xs ++ x :: ys)) (key x) (some y) := by
  have hn' : ((xs ++ y :: ys).map key).Nodup := by simpa [hk] using hn
  have hx := key_notMem hn
  rw [view_perm hn' (perm_concat y xs ys), view_perm hn (perm_concat x xs ys),
    view_concat (by rwa [hk]), view_concat hx, hk, Function.update_idem]

theorem view_remove (hn : ((xs ++ x :: ys).map key).Nodup) :
    view key (xs ++ ys) = Function.update (view key (xs ++ x :: ys)) (key x) none := by
  have hx := key_notMem hn
  rw [view_perm hn (perm_concat x xs ys), view_concat hx, Function.update_idem]
  funext k
  rcases eq_or_ne k (key x) with hk | hk
  · subst hk
    rw [Function.update_self, view_eq_none.mpr hx]
  · rw [Function.update_of_ne hk]

end Keyed

section Doubling

variable {base size peak count : ℕ}

/-- The size of an array that started with `base` slots and has doubled when it
was full, `peak` being the most slots that were live. -/
structure Grown (base size peak : ℕ) : Prop where
  power : ∃ k, size = base * 2 ^ k
  enough : peak ≤ size
  tight : size = base ∨ size < 2 * peak

theorem Grown.push (h : Grown base size peak) (hpos : 0 < base) (hc : count ≤ peak) :
    Grown base (if count = size then size * 2 else size) (max peak (count + 1)) := by
  obtain ⟨k, hk⟩ := h.power
  have henough := h.enough
  have hsize : 0 < size := by
    rw [hk]
    exact Nat.mul_pos hpos (Nat.two_pow_pos k)
  split_ifs with hfull
  · refine ⟨⟨k + 1, ?_⟩, ?_, Or.inr ?_⟩
    · rw [hk, Nat.pow_succ, Nat.mul_assoc]
    · omega
    · omega
  · refine ⟨⟨k, hk⟩, by omega, h.tight.imp_right fun ht => ?_⟩
    omega

theorem Grown.least (h : Grown base size peak) :
    IsLeast {n | ∃ k, n = base * 2 ^ k ∧ peak ≤ n} size := by
  obtain ⟨k, hk⟩ := h.power
  refine ⟨⟨k, hk, h.enough⟩, ?_⟩
  rintro n ⟨j, rfl, hj⟩
  rcases h.tight with hbase | htight
  · rw [hbase]
    exact Nat.le_mul_of_pos_right base (Nat.two_pow_pos j)
  · have hlt : base * 2 ^ k < base * 2 ^ (j + 1) := by
      rw [Nat.pow_succ, ← Nat.mul_assoc, ← hk]
      omega
    have hkj : k < j + 1 := (Nat.pow_lt_pow_iff_right Nat.one_lt_two).mp
      (Nat.lt_of_mul_lt_mul_left hlt)
    rw [hk]
    exact Nat.mul_le_mul_left base (Nat.pow_le_pow_right Nat.two_pos (Nat.lt_succ_iff.mp hkj))

end Doubling

end SlotArray
