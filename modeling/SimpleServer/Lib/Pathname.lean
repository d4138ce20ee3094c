import SimpleServer.Lib.CString

/-!
# Pathnames, their segments, and containment

A pathname is cut at `/` into segments. Empty segments and `.` stay, `..`
goes up one directory and every other segment goes down one. A pathname is
contained when it is relative and this walk never leaves the directory it
starts from by its top. `walkDepth` is the depth below that directory, and
`none` once the walk is above it. Where `..` can stand in the last place only
(`UpOnlyLast`, as when `../` does not occur), containment is a matter of two
shapes: an absolute pathname, and staying segments followed by `..`.
-/

namespace Pathname

open CString

abbrev Name := Bytes

def slash : Byte := 47
def dot : Name := [46]
def dotdot : Name := [46, 46]

def segments (p : Bytes) : List Name := p.splitOn slash

def Stays (n : Name) : Prop := n = [] ∨ n = dot

instance (n : Name) : Decidable (Stays n) := inferInstanceAs (Decidable (_ ∨ _))

def stepDepth (d : ℕ) (n : Name) : Option ℕ :=
  if Stays n then some d
  else if n = dotdot then (if d = 0 then none else some (d - 1))
  else some (d + 1)

def walkDepth (d : ℕ) (ns : List Name) : Option ℕ := ns.foldlM stepDepth d

def Absolute (p : Bytes) : Prop := p.head? = some slash

instance (p : Bytes) : Decidable (Absolute p) := inferInstanceAs (Decidable (_ = _))

def Contained (p : Bytes) : Prop := ¬ Absolute p ∧ (walkDepth 0 (segments p)).isSome = true

instance (p : Bytes) : Decidable (Contained p) := inferInstanceAs (Decidable (_ ∧ _))

/-- Nothing but staying segments and then a last `..`: a climb of one step. -/
def ClimbsOut (p : Bytes) : Prop :=
  (∀ n ∈ (segments p).dropLast, Stays n) ∧ (segments p).getLast? = some dotdot

instance (p : Bytes) : Decidable (ClimbsOut p) := inferInstanceAs (Decidable (_ ∧ _))

def UpOnlyLast (p : Bytes) : Prop := dotdot ∉ (segments p).dropLast

theorem not_stays_dotdot : ¬ Stays dotdot := by decide

theorem segments_ne_nil (p : Bytes) : segments p ≠ [] := List.splitOn_ne_nil _ _

theorem segments_append_slash (p q : Bytes) :
    segments (p ++ slash :: q) = segments p ++ segments q :=
  List.splitOn_append_cons_self p q

theorem segments_of_notMem {p : Bytes} (h : slash ∉ p) : segments p = [p] :=
  List.splitOn_eq_singleton h

theorem segments_nil : segments [] = [[]] := rfl

theorem segments_slash (p : Bytes) : segments (slash :: p) = [] :: segments p :=
  segments_append_slash [] p

theorem segments_cons {b : Byte} (hb : b ≠ slash) (p : Bytes) :
    segments (b :: p) = (segments p).modifyHead (b :: ·) := by
  simp [segments, List.splitOn_cons_eq_if_modifyHead, hb]

theorem exists_mem_segments {p : Bytes} {b : Byte} (hb : b ≠ slash) :
    (∃ n ∈ segments p, b ∈ n) ↔ b ∈ p := by
  induction p with
  | nil => simp [segments_nil]
  | cons a p ih =>
    by_cases ha : a = slash
    · rw [ha, segments_slash, List.mem_cons, ← ih]
      simp [hb]
    · obtain ⟨m, ms, hm⟩ := List.exists_cons_of_ne_nil (segments_ne_nil p)
      rw [segments_cons ha, hm, List.mem_cons, ← ih, hm]
      simp [or_assoc]

theorem infix_of_mem_dropLast {p : Bytes} {n : Name} (h : n ∈ (segments p).dropLast) :
    n ++ [slash] <:+: p := by
  induction p generalizing n with
  | nil => simp [segments] at h
  | cons b p ih =>
    obtain ⟨m, ms, hm⟩ := List.exists_cons_of_ne_nil (segments_ne_nil p)
    by_cases hb : b = slash
    · subst hb
      rw [segments_slash, List.dropLast_cons_of_ne_nil (segments_ne_nil p)] at h
      rcases List.mem_cons.mp h with rfl | h
      · exact (List.prefix_append [slash] p).isInfix
      · exact (ih h).trans (List.suffix_cons slash p).isInfix
    · rw [segments_cons hb, hm] at h
      cases ms with
      | nil => simp at h
      | cons m' ms =>
        rw [hm] at ih
        simp only [List.modifyHead_cons, List.dropLast_cons_cons, List.mem_cons] at h ih
        rcases h with rfl | h
        · -- the first segment: `p` itself begins with it and its slash
          have hp : p = m ++ slash :: ([slash].intercalate (m' :: ms)) := by
            have hj : [slash].intercalate (p.splitOn slash) = p := List.intercalate_splitOn slash
            rw [show p.splitOn slash = m :: m' :: ms from hm] at hj
            rw [← hj]
            simp [List.intercalate_cons_cons]
          exact ⟨[], [slash].intercalate (m' :: ms), by rw [hp]; simp⟩
        · exact (ih (Or.inr h)).trans (List.suffix_cons b p).isInfix

theorem getLast_segments_append {t : Bytes} (ht : slash ∉ t) (u : Bytes) :
    t <:+ (segments (u ++ t)).getLast (segments_ne_nil _) := by
  induction u with
  | nil => simp only [List.nil_append, segments_of_notMem ht, List.getLast_singleton, List.suffix_rfl]
  | cons b u ih =>
    by_cases hb : b = slash
    · simp only [List.cons_append, hb, segments_slash, List.getLast_cons (segments_ne_nil _)]
      exact ih
    · obtain ⟨m, ms, hm⟩ := List.exists_cons_of_ne_nil (segments_ne_nil (u ++ t))
      simp only [List.cons_append, segments_cons hb, hm, List.modifyHead_cons] at ih ⊢
      cases ms with
      | nil =>
        rw [List.getLast_singleton] at ih ⊢
        exact ih.trans (List.suffix_cons b m)
      | cons m' ms =>
        rw [List.getLast_cons_cons] at ih ⊢
        exact ih

theorem dotdot_slash_infix (p : Bytes) :
    dotdot ++ [slash] <:+: p ↔ ∃ n ∈ (segments p).dropLast, dotdot <:+ n := by
  constructor
  · rintro ⟨u, v, rfl⟩
    have hs : u ++ (dotdot ++ [slash]) ++ v = (u ++ dotdot) ++ slash :: v := by simp
    rw [hs, segments_append_slash, List.dropLast_append_of_ne_nil (segments_ne_nil v)]
    refine ⟨_, List.mem_append_left _ (List.getLast_mem (segments_ne_nil _)), ?_⟩
    exact getLast_segments_append (by decide) u
  · rintro ⟨n, hn, u, rfl⟩
    have hi := infix_of_mem_dropLast hn
    rw [List.append_assoc] at hi
    exact (List.suffix_append u _).isInfix.trans hi

theorem segments_eq_dropLast_getLast (p : Bytes) :
    segments p = (segments p).dropLast ++ [(segments p).getLast (segments_ne_nil p)] :=
  (List.dropLast_concat_getLast (segments_ne_nil p)).symm

theorem getLast_segments_suffix (p : Bytes) :
    (segments p).getLast (segments_ne_nil p) <:+ p := by
  induction p with
  | nil => exact List.suffix_rfl
  | cons b p ih =>
    by_cases hb : b = slash
    · simp only [hb, segments_slash, List.getLast_cons (segments_ne_nil _)]
      exact ih.trans (List.suffix_cons _ p)
    · obtain ⟨m, ms, hm⟩ := List.exists_cons_of_ne_nil (segments_ne_nil p)
      simp only [segments_cons hb, hm, List.modifyHead_cons] at ih ⊢
      cases ms with
      | nil =>
        have hj : [slash].intercalate (p.splitOn slash) = p := List.intercalate_splitOn slash
        rw [show p.splitOn slash = [m] from hm, List.intercalate_singleton] at hj
        rw [List.getLast_singleton, hj]
      | cons m' ms =>
        rw [List.getLast_cons_cons] at ih ⊢
        exact ih.trans (List.suffix_cons b p)

theorem dotdot_slash_append {p n : Bytes} (hn : slash ∉ n) :
    dotdot ++ [slash] <:+: p ++ slash :: n ↔ dotdot ++ [slash] <:+: p ∨ dotdot <:+ p := by
  have hseg : (segments (p ++ slash :: n)).dropLast = segments p := by
    rw [segments_append_slash, segments_of_notMem hn, List.dropLast_concat]
  have hlast : dotdot <:+ (segments p).getLast (segments_ne_nil p) ↔ dotdot <:+ p := by
    constructor
    · exact fun h => h.trans (getLast_segments_suffix p)
    · rintro ⟨u, rfl⟩
      exact getLast_segments_append (by decide) u
  calc dotdot ++ [slash] <:+: p ++ slash :: n
    _ ↔ ∃ m ∈ segments p, dotdot <:+ m := by rw [← hseg]; exact dotdot_slash_infix _
    _ ↔ (∃ m ∈ (segments p).dropLast, dotdot <:+ m) ∨ dotdot <:+ p := by
      rw [← hlast]
      nth_rewrite 1 [segments_eq_dropLast_getLast p]
      simp only [List.mem_append, List.mem_singleton, or_and_right, exists_or, exists_eq_left]
    _ ↔ dotdot ++ [slash] <:+: p ∨ dotdot <:+ p := or_congr_left ( dotdot_slash_infix p).symm

theorem upOnlyLast_of_not_infix {p : Bytes} (h : ¬ (dotdot ++ [slash]) <:+: p) :
    UpOnlyLast p := fun hd => h (infix_of_mem_dropLast hd)

section Depth

variable {ns : List Name} {d : ℕ}

theorem walkDepth_append (ns ms : List Name) (d : ℕ) :
    walkDepth d (ns ++ ms) = (walkDepth d ns).bind (walkDepth · ms) := by
  simp [walkDepth, List.foldlM_append]

theorem walkDepth_of_notMem (h : dotdot ∉ ns) :
    walkDepth d ns = some (d + ns.countP (fun n => ¬ Stays n)) := by
  induction ns generalizing d with
  | nil => simp [walkDepth]
  | cons n ns ih =>
    simp only [List.mem_cons, not_or] at h
    have ih' : ∀ e, List.foldlM stepDepth e ns = some (e + ns.countP (fun n => ¬ Stays n)) :=
      fun e => ih h.2
    by_cases hs : Stays n
    · simp [walkDepth, stepDepth, hs, ih']
    · simp only [walkDepth, List.foldlM_cons, stepDepth, hs, if_false, Ne.symm h.1,
        Option.bind_eq_bind, Option.bind_some, ih', List.countP_cons, decide_not, Bool.not_false,
        decide_false, if_true]
      congr 1
      omega

theorem walkDepth_segments {p : Bytes} (h : UpOnlyLast p) :
    (walkDepth 0 (segments p)).isSome = true ↔ ¬ ClimbsOut p := by
  have hlast : (segments p).getLast? = some ((segments p).getLast (segments_ne_nil p)) :=
    List.getLast?_eq_some_getLast _
  rw [segments_eq_dropLast_getLast, walkDepth_append, walkDepth_of_notMem h, Option.bind_some,
    ClimbsOut, hlast]
  generalize (segments p).getLast (segments_ne_nil p) = l
  have hz : (segments p).dropLast.countP (fun n => ¬ Stays n) = 0 ↔
      ∀ n ∈ (segments p).dropLast, Stays n := by simp [List.countP_eq_zero]
  rw [← hz]
  generalize (segments p).dropLast.countP (fun n => ¬ Stays n) = k
  by_cases hs : Stays l
  · have hl : l ≠ dotdot := fun he => not_stays_dotdot (he ▸ hs)
    simp [walkDepth, stepDepth, hs, hl]
  · by_cases hl : l = dotdot
    · by_cases hk : k = 0 <;> simp [walkDepth, stepDepth, hl, hk, not_stays_dotdot]
    · simp [walkDepth, stepDepth, hs, hl]

theorem contained_iff {p : Bytes} (h : UpOnlyLast p) :
    Contained p ↔ ¬ Absolute p ∧ ¬ ClimbsOut p := by
  rw [Contained, walkDepth_segments h]

theorem walkDepth_concat {ns : List Name} {n : Name} (h : (walkDepth 0 ns).isSome = true)
    (hn : n ≠ dotdot) : (walkDepth 0 (ns ++ [n])).isSome = true := by
  obtain ⟨d, hd⟩ := Option.isSome_iff_exists.mp h
  rw [walkDepth_append, hd, Option.bind_some]
  by_cases hs : Stays n <;> simp [walkDepth, stepDepth, hs, hn]

theorem walkDepth_of_append {ns ms : List Name} (h : (walkDepth 0 (ns ++ ms)).isSome = true) :
    (walkDepth 0 ns).isSome = true := by
  rw [walkDepth_append] at h
  cases hd : walkDepth 0 ns with
  | none =>
    rw [hd] at h
    cases h
  | some d => rfl

theorem contained_append {p t : Bytes} (hp : p ≠ []) (h : Contained p) (ht : slash ∉ t)
    (hd : t ≠ dotdot) : Contained (p ++ slash :: t) := by
  refine ⟨?_, ?_⟩
  · rw [Absolute, List.head?_append_of_ne_nil _ hp]
    exact h.1
  · rw [segments_append_slash, segments_of_notMem ht]
    exact walkDepth_concat h.2 hd

/-- A trailing empty segment can be replaced by any that is not a climb. -/
theorem contained_fill {p t : Bytes} (hp : p ≠ []) (h : Contained (p ++ [slash])) (ht : slash ∉ t)
    (hd : t ≠ dotdot) : Contained (p ++ slash :: t) := by
  apply contained_append hp _ ht hd
  refine ⟨?_, ?_⟩
  · have ha := h.1
    rwa [Absolute, List.head?_append_of_ne_nil _ hp] at ha
  · have hw := h.2
    rw [segments_append_slash] at hw
    exact walkDepth_of_append hw

theorem climbsOut_stays {n : Name} (hn : Stays n) (hs : slash ∉ n) (p : Bytes) :
    ClimbsOut (n ++ slash :: p) ↔ ClimbsOut p := by
  rw [ClimbsOut, ClimbsOut, segments_append_slash, segments_of_notMem hs, List.singleton_append,
    List.dropLast_cons_of_ne_nil (segments_ne_nil p),
    List.getLast?_cons_of_ne_nil (segments_ne_nil p)]
  simp [hn]

end Depth

end Pathname
