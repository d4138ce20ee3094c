import Mathlib.Data.List.Forall2

/-!
# Texts of terminated lines, and cutting a line into fields

A text of lines has the terminator behind every line. It can be read back
exactly when no line contains the terminator: reading never yields fewer lines
than were written, and it yields more as soon as one of them does. A line is
cut at the first or at the last occurrence of a delimiter.
-/

namespace Fields

variable {α β : Type}

theorem mapM_eq_some {f : α → Option β} {xs : List α} {ys : List β} :
    xs.mapM f = some ys ↔ List.Forall₂ (fun x y => f x = some y) xs ys := by
  induction xs generalizing ys with
  | nil => simp [eq_comm]
  | cons x xs ih =>
    rw [List.mapM_cons]
    cases ys with
    | nil => simp [Option.bind_eq_some_iff]
    | cons y ys =>
      simp only [Option.bind_eq_bind, Option.pure_def, Option.bind_eq_some_iff, Option.some.injEq,
        List.cons.injEq, List.forall₂_cons, ih]
      constructor
      · intro h
        obtain ⟨y', hy, ys', hys, rfl, rfl⟩ := h
        exact ⟨hy, hys⟩
      · intro h
        exact ⟨y, h.1, ys, h.2, rfl, rfl⟩

theorem forall₂_both {R : α → β → Prop} {S : β → α → Prop} {xs : List α} {ys : List β}
    (h : List.Forall₂ R xs ys) (h' : List.Forall₂ S ys xs) : ∀ x ∈ xs, ∃ y, R x y ∧ S y x := by
  induction h with
  | nil => simp
  | cons hr _ ih =>
    rw [List.forall₂_cons] at h'
    intro x hx
    rcases List.mem_cons.mp hx with rfl | hx
    · exact ⟨_, hr, h'.1⟩
    · exact ih h'.2 x hx

theorem forall₂_of_exists {R : α → β → Prop} {xs : List α} (h : ∀ x ∈ xs, ∃ y, R x y) :
    ∃ ys, List.Forall₂ R xs ys := by
  induction xs with
  | nil => exact ⟨[], .nil⟩
  | cons x xs ih =>
    obtain ⟨y, hy⟩ := h x List.mem_cons_self
    obtain ⟨ys, hys⟩ := ih fun z hz => h z (List.mem_cons_of_mem _ hz)
    exact ⟨y :: ys, .cons hy hys⟩

variable [DecidableEq α]

def cut (b : α) : List α → Option (List α × List α)
  | [] => none
  | x :: xs => if x = b then some ([], xs) else (cut b xs).map fun p => (x :: p.1, p.2)

def cutLast (b : α) (s : List α) : Option (List α × List α) :=
  (cut b s.reverse).map fun p => (p.2.reverse, p.1.reverse)

def terminated (b : α) (ls : List (List α)) : List α := ls.flatMap (· ++ [b])

/-- The lines of a text, if its last line is terminated too. -/
def lines (b : α) (s : List α) : Option (List (List α)) :=
  if (s.splitOn b).getLast? = some [] then some (s.splitOn b).dropLast else none

section Cuts

variable {b : α} {s l r : List α}

theorem cut_eq_some : cut b s = some (l, r) ↔ s = l ++ b :: r ∧ b ∉ l := by
  induction s generalizing l with
  | nil => simp [cut]
  | cons x s ih =>
    by_cases hx : x = b
    · subst hx
      rw [cut, if_pos rfl]
      cases l with
      | nil => simp [eq_comm]
      | cons y l => simp +contextual [eq_comm]
    · rw [cut, if_neg hx, Option.map_eq_some_iff]
      cases l with
      | nil => simp [hx]
      | cons y l =>
        constructor
        · intro h
          obtain ⟨⟨l', r'⟩, hc, he⟩ := h
          simp only [Prod.mk.injEq, List.cons.injEq] at he
          obtain ⟨⟨rfl, rfl⟩, rfl⟩ := he
          obtain ⟨hs, hb⟩ := ih.mp hc
          exact ⟨by rw [hs]; rfl, by simp [Ne.symm hx, hb]⟩
        · intro h
          obtain ⟨hs, hb⟩ := h
          rw [List.cons_append, List.cons.injEq] at hs
          obtain ⟨rfl, hs⟩ := hs
          exact ⟨(l, r), ih.mpr ⟨hs, fun h => hb (List.mem_cons_of_mem _ h)⟩, rfl⟩

theorem cut_append (h : b ∉ l) : cut b (l ++ b :: r) = some (l, r) := cut_eq_some.mpr ⟨rfl, h⟩

theorem cutLast_append (h : b ∉ r) : cutLast b (l ++ b :: r) = some (l, r) := by
  have hr : (l ++ b :: r).reverse = r.reverse ++ b :: l.reverse := by simp
  rw [cutLast, hr, cut_append (by simpa using h)]
  simp

end Cuts

section Lines

variable {b : α} {s : List α} {ls ls' : List (List α)}

theorem splitOn_terminated (h : ∀ l ∈ ls, b ∉ l) : (terminated b ls).splitOn b = ls ++ [[]] := by
  induction ls with
  | nil => rfl
  | cons l ls ih =>
    have hl := h l List.mem_cons_self
    have he : terminated b (l :: ls) = l ++ b :: terminated b ls := by simp [terminated]
    rw [he, List.splitOn_append_cons_self_of_not_mem hl,
      ih fun m hm => h m (List.mem_cons_of_mem _ hm)]
    rfl

theorem lines_terminated (h : ∀ l ∈ ls, b ∉ l) : lines b (terminated b ls) = some ls := by
  rw [lines, splitOn_terminated h, List.getLast?_concat, if_pos rfl, List.dropLast_concat]

theorem length_splitOn (b : α) (s : List α) : (s.splitOn b).length = s.count b + 1 := by
  induction s with
  | nil => rfl
  | cons x s ih =>
    rw [List.splitOn_cons_eq_if_modifyHead, List.count_cons]
    split_ifs
    · rw [List.length_cons, ih]
    · rw [List.length_modifyHead, ih]

theorem length_lines (h : lines b s = some ls) : ls.length = s.count b := by
  rw [lines] at h
  split_ifs at h
  rw [← Option.some.inj h, List.length_dropLast, length_splitOn, Nat.add_sub_cancel]

theorem length_le_count (b : α) (ls : List (List α)) : ls.length ≤ (terminated b ls).count b := by
  induction ls with
  | nil => exact Nat.zero_le _
  | cons l ls ih =>
    have he : terminated b (l :: ls) = l ++ b :: terminated b ls := by simp [terminated]
    rw [he, List.count_append, List.count_cons_self, List.length_cons]
    omega

/-- A line that contains the terminator shows in the number of lines read. -/
theorem length_lt_count {l : List α} (hl : l ∈ ls) (hb : b ∈ l) :
    ls.length < (terminated b ls).count b := by
  obtain ⟨front, back, rfl⟩ := List.append_of_mem hl
  have he : terminated b (front ++ l :: back) =
      terminated b front ++ (l ++ b :: terminated b back) := by simp [terminated]
  have hpos := List.count_pos_iff.mpr hb
  have hf := length_le_count b front
  have hk := length_le_count b back
  rw [he, List.count_append, List.count_append, List.count_cons_self, List.length_append,
    List.length_cons]
  omega

theorem lines_plain (h : lines b (terminated b ls) = some ls') (hn : ls'.length = ls.length) :
    ∀ l ∈ ls, b ∉ l := by
  intro l hl hb
  have hlt := length_lt_count hl hb
  rw [← length_lines h, hn] at hlt
  exact absurd hlt (Nat.lt_irrefl _)

end Lines

end Fields
