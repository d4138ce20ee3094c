import Mathlib.Data.List.Count
import Mathlib.Data.List.Basic
import Mathlib.Algebra.Order.Group.Multiset

/-!
# A ledger of things taken and given back

An entry takes a thing or gives it back. Replaying a ledger keeps the list of
what is held and fails at the first entry that takes a thing that is held or
gives back one that is not; so where a replay succeeds, every taking has been
followed by at most one giving back, and by exactly one unless the thing is
still held.

Where only the kind of a thing counts, what is held is a multiset and any number
of one kind may be held. What a ledger does there is said by two multisets, as
it is of a command by a precondition and a postcondition, and it does the same
beside whatever else is held.
-/

namespace Ledger

inductive Entry (ρ : Type) where
  | take (r : ρ)
  | give (r : ρ)
  deriving DecidableEq, Repr

variable {ρ α : Type} [DecidableEq ρ]

def post (held : List ρ) : Entry ρ → Option (List ρ)
  | .take r => if r ∈ held then none else some (r :: held)
  | .give r => if r ∈ held then some (held.erase r) else none

def replay (held : List ρ) (es : List (Entry ρ)) : Option (List ρ) := es.foldlM post held

theorem replay_append (held : List ρ) (es fs : List (Entry ρ)) :
    replay held (es ++ fs) = (replay held es).bind (replay · fs) := by
  rw [replay, List.foldlM_append]
  rfl

theorem replay_append_some {held held' : List ρ} {es fs : List (Entry ρ)}
    (h : replay held es = some held') : replay held (es ++ fs) = replay held' fs := by
  rw [replay_append, h, Option.bind_some]

theorem replay_cons (held : List ρ) (e : Entry ρ) (es : List (Entry ρ)) :
    replay held (e :: es) = (post held e).bind (replay · es) := by
  rw [replay, List.foldlM_cons]
  rfl

section Short

variable (r : ρ) {r' : ρ}

theorem replay_take : replay [] [.take r] = some [r] := by simp [replay, post]

theorem replay_give : replay [] [.give r] = none := by simp [replay, post]

theorem replay_held_give : replay [r] [.give r] = some [] := by simp [replay, post]

theorem replay_take_give : replay [] [.take r, .give r] = some [] := by simp [replay, post]

theorem replay_exchange (h : r ≠ r') : replay [] [.take r, .take r', .give r] = some [r'] := by
  simp [replay, post, h.symm]

end Short

theorem replay_flatMap {f : α → List (Entry ρ)} {l : List α}
    (h : ∀ a ∈ l, replay [] (f a) = some []) : replay [] (l.flatMap f) = some [] := by
  induction l with
  | nil => rfl
  | cons a l ih =>
    rw [List.flatMap_cons, replay_append_some (h a List.mem_cons_self)]
    exact ih fun b hb => h b (List.mem_cons_of_mem _ hb)

theorem post_count {held held' : List ρ} {e : Entry ρ} (h : post held e = some held') (r : ρ) :
    held.count r + [e].count (.take r) = held'.count r + [e].count (.give r) := by
  cases e with
  | take x =>
    simp only [post] at h
    split_ifs at h
    cases h
    by_cases hx : x = r <;> simp [hx]
  | give x =>
    simp only [post] at h
    split_ifs at h with hm
    cases h
    by_cases hx : x = r
    · subst hx
      have hpos := List.count_pos_iff.mpr hm
      simp
      omega
    · simp [hx, List.count_erase_of_ne (Ne.symm hx)]

theorem replay_count {held held' : List ρ} {es : List (Entry ρ)}
    (h : replay held es = some held') (r : ρ) :
    held.count r + es.count (.take r) = held'.count r + es.count (.give r) := by
  induction es generalizing held with
  | nil =>
    cases h
    simp
  | cons e es ih =>
    rw [replay_cons] at h
    obtain ⟨held₁, h1, h2⟩ := Option.bind_eq_some_iff.mp h
    have hpost := post_count h1 r
    have hrest := ih h2
    rw [← List.singleton_append, List.count_append, List.count_append]
    omega

/-- What a ledger takes, and what it gives back, one entry after the other. -/
def taken (es : List (Entry ρ)) : List ρ :=
  es.filterMap fun | .take r => some r | .give _ => none

def given (es : List (Entry ρ)) : List ρ :=
  es.filterMap fun | .take _ => none | .give r => some r

omit [DecidableEq ρ] in
@[simp] theorem taken_append (es fs : List (Entry ρ)) : taken (es ++ fs) = taken es ++ taken fs :=
  List.filterMap_append

omit [DecidableEq ρ] in
@[simp] theorem given_append (es fs : List (Entry ρ)) : given (es ++ fs) = given es ++ given fs :=
  List.filterMap_append

omit [DecidableEq ρ] in
@[simp] theorem taken_gives (rs : List ρ) : taken (rs.map .give) = [] := by
  induction rs with
  | nil => rfl
  | cons r rs ih => exact ih

omit [DecidableEq ρ] in
@[simp] theorem given_gives (rs : List ρ) : given (rs.map .give) = rs := by
  induction rs with
  | nil => rfl
  | cons r rs ih => exact congrArg (r :: ·) ih

theorem count_taken (es : List (Entry ρ)) (r : ρ) : (taken es).count r = es.count (.take r) := by
  induction es with
  | nil => rfl
  | cons e es ih =>
    rw [← List.singleton_append, taken_append, List.count_append, List.count_append, ih]
    cases e <;> simp [taken, List.count_singleton]

theorem count_given (es : List (Entry ρ)) (r : ρ) : (given es).count r = es.count (.give r) := by
  induction es with
  | nil => rfl
  | cons e es ih =>
    rw [← List.singleton_append, given_append, List.count_append, List.count_append, ih]
    cases e <;> simp [given, List.count_singleton]

theorem replay_perm {held held' : List ρ} {es : List (Entry ρ)}
    (h : replay held es = some held') : (held ++ taken es).Perm (held' ++ given es) := by
  refine List.perm_iff_count.mpr fun r => ?_
  rw [List.count_append, List.count_append, count_taken, count_given]
  exact replay_count h r

/-- Nothing is taken while it is held: what whoever hands the things out promises. -/
def Fresh : List ρ → List (Entry ρ) → Prop
  | _, [] => True
  | held, .take r :: es => r ∉ held ∧ Fresh (r :: held) es
  | held, .give r :: es => Fresh (held.erase r) es

instance decidableFresh : (held : List ρ) → (es : List (Entry ρ)) → Decidable (Fresh held es)
  | _, [] => .isTrue trivial
  | held, .take r :: es =>
    have := decidableFresh (r :: held) es
    inferInstanceAs (Decidable (r ∉ held ∧ Fresh (r :: held) es))
  | held, .give r :: es => decidableFresh (held.erase r) es

section Fresh

variable {held held' : List ρ} {es fs : List (Entry ρ)}

theorem Fresh.perm (h : Fresh held es) (hp : held.Perm held') : Fresh held' es := by
  induction es generalizing held held' with
  | nil => trivial
  | cons e es ih =>
    cases e with
    | take r => exact ⟨fun hm => h.1 (hp.mem_iff.mpr hm), ih h.2 (hp.cons r)⟩
    | give r => exact ih (h : Fresh (held.erase r) es) (hp.erase r)

theorem Fresh.left (h : Fresh held (es ++ fs)) : Fresh held es := by
  induction es generalizing held with
  | nil => trivial
  | cons e es ih =>
    cases e with
    | take r => exact ⟨h.1, ih h.2⟩
    | give r => exact ih (h : Fresh (held.erase r) (es ++ fs))

/-- Behind a part that could be replayed, the promise is about what is held there. -/
theorem Fresh.right (h : Fresh held (es ++ fs)) (hr : replay held es = some held') :
    Fresh held' fs := by
  induction es generalizing held with
  | nil =>
    cases hr
    exact h
  | cons e es ih =>
    rw [replay_cons] at hr
    obtain ⟨held₁, h1, h2⟩ := Option.bind_eq_some_iff.mp hr
    cases e with
    | take r =>
      simp only [post] at h1
      split_ifs at h1
      cases h1
      exact ih h.2 h2
    | give r =>
      simp only [post] at h1
      split_ifs at h1
      cases h1
      exact ih (h : Fresh (held.erase r) (es ++ fs)) h2

theorem replay_gives {rs rest : List ρ} (h : held.Perm (rs ++ rest)) :
    ∃ held', replay held (rs.map .give) = some held' ∧ held'.Perm rest := by
  induction rs generalizing held with
  | nil => exact ⟨held, rfl, h⟩
  | cons r rs ih =>
    have hm : r ∈ held := h.mem_iff.mpr List.mem_cons_self
    have hrest : (held.erase r).Perm (rs ++ rest) := by
      have herase := h.erase r
      rwa [List.cons_append, List.erase_cons_head] at herase
    obtain ⟨held', h1, h2⟩ := ih hrest
    refine ⟨held', ?_, h2⟩
    rw [List.map_cons, replay_cons, post, if_pos hm]
    exact h1

theorem replay_take_fresh {r : ρ} (h : r ∉ held) :
    replay held (.take r :: es) = replay (r :: held) es := by
  rw [replay_cons, post, if_neg h]
  rfl

theorem replay_take_give_fresh {r : ρ} (h : r ∉ held) :
    replay held (.take r :: .give r :: es) = replay held es := by
  rw [replay_take_fresh h, replay_cons, post, if_pos List.mem_cons_self, List.erase_cons_head]
  rfl

/-- Where each of several ledgers adds what it says to whatever is held, so do
they one behind the other. -/
theorem replay_flatMap_adds {f : α → List (Entry ρ)} {g : α → List ρ} {l : List α}
    (hf : ∀ a ∈ l, ∀ held, Fresh held (f a) →
      ∃ held', replay held (f a) = some held' ∧ held'.Perm (held ++ g a))
    (h : Fresh held (l.flatMap f)) :
    ∃ held', replay held (l.flatMap f) = some held' ∧ held'.Perm (held ++ l.flatMap g) := by
  induction l generalizing held with
  | nil => exact ⟨held, rfl, by simp⟩
  | cons a l ih =>
    rw [List.flatMap_cons] at h
    obtain ⟨held₁, h1, hp1⟩ := hf a List.mem_cons_self held h.left
    obtain ⟨held₂, h2, hp2⟩ := ih (fun b hb => hf b (List.mem_cons_of_mem _ hb)) (h.right h1)
    refine ⟨held₂, ?_, ?_⟩
    · rw [List.flatMap_cons, replay_append_some h1]
      exact h2
    · rw [List.flatMap_cons, ← List.append_assoc]
      exact hp2.trans (hp1.append_right _)

theorem replay_frame {extra : List ρ} (hx : ∀ r ∈ extra, .take r ∉ es ∧ .give r ∉ es)
    (h : replay held es = some held') : replay (held ++ extra) es = some (held' ++ extra) := by
  induction es generalizing held with
  | nil =>
    cases h
    rfl
  | cons e es ih =>
    rw [replay_cons] at h
    obtain ⟨held₁, h1, h2⟩ := Option.bind_eq_some_iff.mp h
    have hrest := ih (fun r hr => ⟨fun hm => (hx r hr).1 (List.mem_cons_of_mem _ hm),
      fun hm => (hx r hr).2 (List.mem_cons_of_mem _ hm)⟩) h2
    rw [replay_cons]
    cases e with
    | take r =>
      simp only [post] at h1
      split_ifs at h1 with hm
      cases h1
      have hr : r ∉ held ++ extra := by
        intro hm'
        rcases List.mem_append.mp hm' with hm' | hm'
        · exact hm hm'
        · exact (hx r hm').1 List.mem_cons_self
      rw [post, if_neg hr]
      exact hrest
    | give r =>
      simp only [post] at h1
      split_ifs at h1 with hm
      cases h1
      rw [post, if_pos (List.mem_append_left _ hm), List.erase_append_left _ hm]
      exact hrest

theorem replay_nodup (h : replay held es = some held') (hn : held.Nodup) : held'.Nodup := by
  induction es generalizing held with
  | nil =>
    cases h
    exact hn
  | cons e es ih =>
    rw [replay_cons] at h
    obtain ⟨held₁, h1, h2⟩ := Option.bind_eq_some_iff.mp h
    cases e with
    | take r =>
      simp only [post] at h1
      split_ifs at h1 with hm
      cases h1
      exact ih h2 (List.nodup_cons.mpr ⟨hm, hn⟩)
    | give r =>
      simp only [post] at h1
      split_ifs at h1
      cases h1
      exact ih h2 (hn.erase r)

end Fresh

section Kinds

variable {σ : Type} [DecidableEq σ]

def spend (held : Multiset σ) : Entry σ → Option (Multiset σ)
  | .take k => some (k ::ₘ held)
  | .give k => if k ∈ held then some (held.erase k) else none

def settle (held : Multiset σ) (es : List (Entry σ)) : Option (Multiset σ) := es.foldlM spend held

/-- The ledger turns `before` into `after`, whatever is held beside. -/
def Moves (es : List (Entry σ)) (before after : Multiset σ) : Prop :=
  ∀ rest, settle (before + rest) es = some (after + rest)

/-- The entries about things that are of a kind. -/
def Entry.kind (f : ρ → Option σ) : Entry ρ → Option (Entry σ)
  | .take r => (f r).map .take
  | .give r => (f r).map .give

variable {es fs : List (Entry σ)} {before mid after : Multiset σ} {k : σ}

theorem Moves.nil (held : Multiset σ) : Moves [] held held := fun _ => rfl

theorem Moves.take (k : σ) : Moves [.take k] 0 {k} := by
  intro rest
  rw [zero_add, Multiset.singleton_add]
  rfl

theorem Moves.give (k : σ) : Moves [.give k] {k} 0 := by
  intro rest
  rw [Multiset.singleton_add, zero_add, settle, List.foldlM_cons, spend,
    if_pos (Multiset.mem_cons_self k rest), Multiset.erase_cons_head]
  rfl

theorem Moves.append (h : Moves es before mid) (h' : Moves fs mid after) :
    Moves (es ++ fs) before after := by
  intro rest
  rw [settle, List.foldlM_append]
  exact (congrArg (· >>= fun held => settle held fs) (h rest)).trans (h' rest)

theorem settle_append (held : Multiset σ) :
    settle held (es ++ fs) = (settle held es).bind (settle · fs) := by
  rw [settle, List.foldlM_append]
  rfl

theorem Moves.settle_append (h : Moves es 0 after) (held : Multiset σ) :
    settle held (es ++ fs) = settle (after + held) fs := by
  have hes := h held
  rw [zero_add] at hes
  rw [Ledger.settle_append, hes, Option.bind_some]

theorem settle_give_none {held : Multiset σ} (h : k ∉ held) (fs : List (Entry σ)) :
    settle held (.give k :: fs) = none := by
  rw [settle, List.foldlM_cons, spend, if_neg h]
  rfl

theorem settle_flatMap_isSome {f : α → List (Entry σ)} {l : List α}
    (h : ∀ a ∈ l, ∃ after, Moves (f a) 0 after) (held : Multiset σ) :
    (settle held (l.flatMap f)).isSome = true := by
  induction l generalizing held with
  | nil => rfl
  | cons a l ih =>
    obtain ⟨after, ha⟩ := h a List.mem_cons_self
    rw [List.flatMap_cons, ha.settle_append]
    exact ih (fun b hb => h b (List.mem_cons_of_mem _ hb)) _

theorem Moves.frame (h : Moves es before after) (held : Multiset σ) :
    Moves es (before + held) (after + held) := by
  intro rest
  rw [add_assoc, add_assoc]
  exact h _

theorem Moves.settle (h : Moves es 0 after) : settle 0 es = some after := by
  have h0 := h 0
  rwa [add_zero, add_zero] at h0

theorem Moves.flatMap {f : α → List (Entry σ)} {g g' : α → List σ} {l : List α}
    (h : ∀ a ∈ l, Moves (f a) (g a) (g' a)) :
    Moves (l.flatMap f) (l.flatMap g : List σ) (l.flatMap g' : List σ) := by
  induction l with
  | nil => exact .nil _
  | cons a l ih =>
    have hrest := ih fun b hb => h b (List.mem_cons_of_mem _ hb)
    simp only [List.flatMap_cons, ← Multiset.coe_add]
    refine ((h a List.mem_cons_self).frame _).append ?_
    rw [add_comm, add_comm (g' a : Multiset σ)]
    exact hrest.frame _

theorem Moves.of_post (f : ρ → Option σ) {held held' : List ρ} {e : Entry ρ}
    (h : post held e = some held') :
    Moves (Entry.kind f e).toList (held.filterMap f : List σ) (held'.filterMap f : List σ) := by
  cases e with
  | take r =>
    simp only [post] at h
    split_ifs at h
    cases h
    cases hk : f r with
    | none =>
      simp only [Entry.kind, hk, Option.map_none, Option.toList_none, List.filterMap_cons]
      exact .nil _
    | some k =>
      have hone := (Moves.take k).frame (held.filterMap f : List σ)
      rw [zero_add, Multiset.singleton_add, Multiset.cons_coe] at hone
      simpa only [Entry.kind, hk, Option.map_some, Option.toList_some, List.filterMap_cons] using hone
  | give r =>
    simp only [post] at h
    split_ifs at h with hm
    cases h
    have hperm : (held.filterMap f : Multiset σ) = ((r :: held.erase r).filterMap f : List σ) :=
      Multiset.coe_eq_coe.mpr ((List.perm_cons_erase hm).filterMap f)
    rw [hperm]
    cases hk : f r with
    | none =>
      simp only [Entry.kind, hk, Option.map_none, Option.toList_none, List.filterMap_cons]
      exact .nil _
    | some k =>
      have hone := (Moves.give k).frame ((held.erase r).filterMap f : List σ)
      rw [zero_add, Multiset.singleton_add, Multiset.cons_coe] at hone
      simpa only [Entry.kind, hk, Option.map_some, Option.toList_some, List.filterMap_cons] using hone

/-- A ledger that can be replayed name by name can be settled kind by kind. -/
theorem Moves.of_replay (f : ρ → Option σ) {held held' : List ρ} {es : List (Entry ρ)}
    (h : replay held es = some held') :
    Moves (es.filterMap (Entry.kind f)) (held.filterMap f : List σ) (held'.filterMap f : List σ) := by
  induction es generalizing held with
  | nil =>
    cases h
    exact .nil _
  | cons e es ih =>
    rw [replay_cons] at h
    obtain ⟨held₁, h1, h2⟩ := Option.bind_eq_some_iff.mp h
    have hone : Moves (Entry.kind f e).toList (held.filterMap f : List σ)
        (held₁.filterMap f : List σ) := .of_post f h1
    rw [List.filterMap_eq_flatMap_toList, List.flatMap_cons, ← List.filterMap_eq_flatMap_toList]
    exact hone.append (ih h2)

theorem Moves.of_replay_nil {held : List σ} {es : List (Entry σ)}
    (h : replay [] es = some held) : Moves es 0 held := by
  have hkind : Entry.kind (some : σ → Option σ) = some := by
    funext e
    cases e <;> rfl
  have hmoves := Moves.of_replay some h
  simpa only [hkind, List.filterMap_some, List.filterMap_nil, Multiset.coe_nil] using hmoves

end Kinds

end Ledger
