import SimpleServer.Lib.Pathname

/-!
# File trees without symbolic links

A node is named by the list of names that leads to it from the root, so two
pathnames denote the same node exactly when they resolve to the same list. A
tree answers for every such list with an inode or with the error that looking
it up gives; what has an inode stands in a directory. Resolution is the usual
one: a leading `/` starts at the root, the empty pathname is an error, and the
segments are walked one by one from a directory to a directory.
-/

namespace FileTree

open CString Pathname

inductive Errno where
  | EAGAIN
  | EWOULDBLOCK
  | EINTR
  | EACCES
  | ENOENT
  | ENOTDIR
  | other (n : ℕ)
  deriving DecidableEq, Repr

abbrev Node := List Name

structure Tree {ι : Type} (isDir : ι → Bool) where
  node : Node → Except Errno ι
  cwd : Node
  inDir : ∀ q n i, node (q ++ [n]) = .ok i → ∃ j, node q = .ok j ∧ isDir j = true
  cwdDir : ∃ j, node cwd = .ok j ∧ isDir j = true

namespace Tree

variable {ι : Type} {isDir : ι → Bool} (t : Tree isDir)

def IsDirectory (q : Node) : Prop := ∃ j, t.node q = .ok j ∧ isDir j = true

/-- One segment, from the node reached so far. -/
def step (q : Node) (n : Name) : Except Errno Node :=
  match t.node q with
  | .error e => .error e
  | .ok i =>
    if isDir i = false then .error .ENOTDIR
    else if Stays n then .ok q
    else if n = dotdot then .ok q.dropLast
    else match t.node (q ++ [n]) with
      | .error e => .error e
      | .ok _ => .ok (q ++ [n])

def walk (q : Node) (ns : List Name) : Except Errno Node := ns.foldlM t.step q

def resolve (p : Bytes) : Except Errno Node :=
  if p = [] then .error .ENOENT
  else t.walk (if Absolute p then [] else t.cwd) (segments p)

theorem walk_append (q : Node) (ns ms : List Name) :
    t.walk q (ns ++ ms) = (t.walk q ns).bind (t.walk · ms) := by
  rw [walk, List.foldlM_append]
  rfl

theorem walk_cons (q : Node) (n : Name) (ns : List Name) :
    t.walk q (n :: ns) = (t.step q n).bind (t.walk · ns) := by
  rw [walk, List.foldlM_cons]
  rfl

theorem walk_singleton (q : Node) (n : Name) : t.walk q [n] = t.step q n := by
  rw [walk_cons]
  cases t.step q n with
  | error e => rfl
  | ok q' => rfl

theorem step_stays {q : Node} {n : Name} (hq : t.IsDirectory q) (hn : Stays n) :
    t.step q n = .ok q := by
  obtain ⟨j, hj, hd⟩ := hq
  simp [step, hj, hd, hn]

theorem resolve_dot_slash {p : Bytes} (hp : p ≠ []) (ha : ¬ Absolute p) :
    t.resolve (dot ++ slash :: p) = t.resolve p := by
  have hdot : ¬ Absolute (dot ++ slash :: p) := by simp [Absolute, dot, slash]
  have hseg : segments (dot ++ slash :: p) = dot :: segments p := by
    rw [segments_append_slash, segments_of_notMem (by decide)]
    rfl
  simp only [resolve, hp, if_false, hdot, ha, hseg, walk_cons, t.step_stays t.cwdDir (Or.inr rfl)]
  rfl

theorem resolve_append {p : Bytes} {q : Node} {n : Name} (h : t.resolve p = .ok q)
    (hn : slash ∉ n) : t.resolve (p ++ slash :: n) = t.step q n := by
  have hp : p ≠ [] := by
    intro he
    rw [he] at h
    cases h
  have habs : Absolute (p ++ slash :: n) ↔ Absolute p := by
    rw [Absolute, Absolute, List.head?_append_of_ne_nil _ hp]
  rw [resolve, if_neg hp] at h
  rw [resolve, if_neg (List.append_ne_nil_of_left_ne_nil hp _), segments_append_slash,
    segments_of_notMem hn, walk_append]
  simp only [habs, h]
  exact t.walk_singleton q n

theorem resolve_trailing_slash {p : Bytes} {q : Node} (h : t.resolve p = .ok q)
    (hd : t.IsDirectory q) : t.resolve (p ++ [slash]) = .ok q :=
  (t.resolve_append h List.not_mem_nil).trans (t.step_stays hd (Or.inl rfl))

theorem step_child {q : Node} {n : Name} {i : ι} (hs : ¬ Stays n) (hu : n ≠ dotdot)
    (h : t.node (q ++ [n]) = .ok i) : t.step q n = .ok (q ++ [n]) := by
  obtain ⟨j, hj, hd⟩ := t.inDir q n i h
  simp [step, hj, hd, hs, hu, h]

theorem step_node {q q' : Node} {n : Name} (h : t.step q n = .ok q') :
    ∃ i, t.node q' = .ok i := by
  simp only [step] at h
  split at h
  · cases h
  · rename_i i hi
    split_ifs at h with hd hs hu
    · cases h
      exact ⟨i, hi⟩
    · cases h
      rcases List.eq_nil_or_concat q with rfl | ⟨q₀, m, rfl⟩
      · exact ⟨i, hi⟩
      · rw [List.concat_eq_append] at hi
        obtain ⟨j, hj, -⟩ := t.inDir q₀ m i hi
        exact ⟨j, by rw [List.concat_eq_append, List.dropLast_concat, hj]⟩
    · split at h
      · cases h
      · rename_i j hj
        cases h
        exact ⟨j, hj⟩

theorem walk_node {q q' : Node} {ns : List Name} (hns : ns ≠ []) (h : t.walk q ns = .ok q') :
    ∃ i, t.node q' = .ok i := by
  induction ns generalizing q with
  | nil => exact absurd rfl hns
  | cons n ns ih =>
    rw [walk_cons] at h
    cases hs : t.step q n with
    | error e =>
      rw [hs] at h
      cases h
    | ok q₁ =>
      rw [hs] at h
      by_cases hne : ns = []
      · rw [hne] at h
        cases h
        exact t.step_node hs
      · exact ih hne h

theorem resolve_node {p : Bytes} {q : Node} (h : t.resolve p = .ok q) :
    ∃ i, t.node q = .ok i := by
  rw [resolve] at h
  split at h
  · cases h
  · exact t.walk_node (segments_ne_nil p) h

theorem walk_filter_stays {q q' : Node} {ns : List Name} (h : t.walk q ns = .ok q') :
    t.walk q (ns.filter fun n => ¬ Stays n) = .ok q' := by
  induction ns generalizing q with
  | nil => exact h
  | cons n ns ih =>
    rw [walk_cons] at h
    cases hs : t.step q n with
    | error e =>
      rw [hs] at h
      cases h
    | ok q₁ =>
      rw [hs] at h
      by_cases hn : Stays n
      · have hq : q₁ = q := by
          simp only [step, hn, if_true] at hs
          split at hs
          · cases hs
          · split_ifs at hs
            cases hs
            rfl
        rw [List.filter_cons_of_neg (by simpa using hn), ← hq]
        exact ih h
      · rw [List.filter_cons_of_pos (by simpa using hn), walk_cons, hs]
        exact ih h

end Tree

section Everything

/-!
### The tree in which every name of a given kind is a directory

Resolution never fails there on names of that kind, and what it denotes is
computed by `lexWalk` alone.
-/

variable {ι : Type} {isDir : ι → Bool} (i : ι) (hi : isDir i = true) (kind : Name → Bool)
  (cwd : Node) (hcwd : cwd.all kind = true)

def everything : Tree isDir where
  node q := if q.all kind then .ok i else .error .ENOENT
  cwd := cwd
  inDir := by
    intro q n j h
    refine ⟨i, ?_, hi⟩
    by_cases hq : q.all kind = true
    · simp [hq]
    · simp [List.all_append, hq] at h
  cwdDir := ⟨i, by simp [hcwd], hi⟩

def lexStep (q : Node) (n : Name) : Node :=
  if Stays n then q else if n = dotdot then q.dropLast else q ++ [n]

def lexWalk (q : Node) (ns : List Name) : Node := ns.foldl lexStep q

theorem lexWalk_append (q : Node) (ns ms : List Name) :
    lexWalk q (ns ++ ms) = lexWalk (lexWalk q ns) ms := List.foldl_append

theorem lexStep_all {q : Node} {n : Name} (hq : q.all kind = true) (hn : kind n = true) :
    (lexStep q n).all kind = true := by
  simp only [lexStep]
  split_ifs
  · exact hq
  · rw [List.all_eq_true] at hq ⊢
    exact fun x hx => hq x (List.mem_of_mem_dropLast hx)
  · simp [List.all_append, hq, hn]

theorem lexWalk_all {q : Node} {ns : List Name} (hq : q.all kind = true)
    (hns : ns.all kind = true) : (lexWalk q ns).all kind = true := by
  induction ns generalizing q with
  | nil => exact hq
  | cons n ns ih =>
    simp only [List.all_cons, Bool.and_eq_true] at hns
    exact ih (lexStep_all kind hq hns.1) hns.2

theorem lexWalk_of_notMem {q : Node} {ns : List Name} (h : dotdot ∉ ns) :
    lexWalk q ns = q ++ ns.filter (fun n => ¬ Stays n) := by
  induction ns generalizing q with
  | nil => simp [lexWalk]
  | cons n ns ih =>
    simp only [List.mem_cons, not_or] at h
    have hi : lexWalk q (n :: ns) = lexWalk (lexStep q n) ns := rfl
    rw [hi, ih h.2]
    by_cases hs : Stays n
    · simp [lexStep, hs]
    · simp [lexStep, hs, Ne.symm h.1]

section Arrival

variable {t : Tree isDir} {q q' : Node} {n : Name} {ns : List Name}

theorem Tree.step_lex (h : t.step q n = .ok q') : q' = lexStep q n := by
  simp only [Tree.step] at h
  split at h
  · cases h
  · split_ifs at h with hd hs hu
    · cases h
      rw [lexStep, if_pos hs]
    · cases h
      rw [lexStep, if_neg hs, if_pos hu]
    · split at h
      · cases h
      · cases h
        rw [lexStep, if_neg hs, if_neg hu]

theorem Tree.walk_lex (h : t.walk q ns = .ok q') : q' = lexWalk q ns := by
  induction ns generalizing q with
  | nil =>
    cases h
    rfl
  | cons n ns ih =>
    rw [Tree.walk_cons] at h
    cases hs : t.step q n with
    | error e =>
      rw [hs] at h
      cases h
    | ok q₁ =>
      rw [hs] at h
      rw [ih h, Tree.step_lex hs]
      rfl

theorem Tree.step_dir (h : t.step q n = .ok q') : t.IsDirectory q := by
  simp only [Tree.step] at h
  split at h
  · cases h
  · rename_i i hi
    split_ifs at h with hd
    all_goals exact ⟨i, hi, by simpa using hd⟩

theorem Tree.step_dotdot (h : t.step q dotdot = .ok q') : t.IsDirectory q' := by
  simp only [Tree.step, not_stays_dotdot, if_false, if_true] at h
  split at h
  · cases h
  · rename_i i hi
    split_ifs at h with hd
    cases h
    rcases List.eq_nil_or_concat q with rfl | ⟨q₀, m, rfl⟩
    · exact ⟨i, hi, by simpa using hd⟩
    · rw [List.concat_eq_append] at hi ⊢
      rw [List.dropLast_concat]
      exact t.inDir q₀ m i hi

theorem Tree.resolve_file {p : Bytes} {i : ι} (hp : UpOnlyLast p)
    (h : t.resolve p = .ok q) (hi : t.node q = .ok i) (hf : isDir i = false) :
    q = (if Absolute p then [] else t.cwd) ++ (segments p).filter (fun n => ¬ Stays n) := by
  rw [Tree.resolve] at h
  split at h
  · cases h
  rw [Tree.walk_lex h, lexWalk_of_notMem]
  intro hm
  rw [segments_eq_dropLast_getLast] at h hm
  rcases List.mem_append.mp hm with hm | hm
  · exact hp hm
  rw [← List.mem_singleton.mp hm, Tree.walk_append] at h
  cases hw : t.walk (if Absolute p then [] else t.cwd) (segments p).dropLast with
  | error e =>
    rw [hw] at h
    cases h
  | ok q₁ =>
    rw [hw] at h
    obtain ⟨j, hj, hd⟩ := Tree.step_dotdot ((t.walk_singleton q₁ dotdot).symm.trans h)
    rw [hi] at hj
    cases hj
    rw [hf] at hd
    cases hd

/-- What is not a directory carries the last name of every pathname that leads
to it. -/
theorem Tree.resolve_file_last {p : Bytes} {i : ι} (h : t.resolve p = .ok q)
    (hi : t.node q = .ok i) (hf : isDir i = false) :
    q.getLast? = some ((segments p).getLast (segments_ne_nil p)) := by
  have hfile : ¬ t.IsDirectory q := by
    rintro ⟨j, hj, hd⟩
    rw [hi] at hj
    cases hj
    rw [hf] at hd
    cases hd
  rw [Tree.resolve] at h
  split at h
  · cases h
  rw [segments_eq_dropLast_getLast, Tree.walk_append] at h
  generalize (segments p).getLast _ = n at h ⊢
  cases hw : t.walk (if Absolute p then [] else t.cwd) (segments p).dropLast with
  | error e =>
    rw [hw] at h
    cases h
  | ok q₁ =>
    rw [hw] at h
    have hstep : t.step q₁ n = .ok q := (t.walk_singleton q₁ n).symm.trans h
    have hlex := Tree.step_lex hstep
    -- the last step goes down: the others lead to a directory
    by_cases hs : Stays n
    · rw [lexStep, if_pos hs] at hlex
      exact absurd (hlex ▸ Tree.step_dir hstep) hfile
    by_cases hu : n = dotdot
    · rw [hu] at hstep
      exact absurd (Tree.step_dotdot hstep) hfile
    · rw [lexStep, if_neg hs, if_neg hu] at hlex
      rw [hlex, List.getLast?_concat]

end Arrival

section Children

variable {ι : Type} {isDir : ι → Bool} {t : Tree isDir} {q : Node} {n : Name}

/-- A name behind a trailing slash is looked up in the directory before it. -/
theorem Tree.resolve_fill {l : Bytes} (h : t.resolve (l ++ [slash]) = .ok q) (hn : slash ∉ n) :
    t.resolve (l ++ slash :: n) = t.step q n := by
  have habs : Absolute (l ++ slash :: n) ↔ Absolute (l ++ [slash]) := by
    cases l <;> rfl
  rw [Tree.resolve, if_neg (by simp), segments_append_slash, segments_nil, Tree.walk_append] at h
  rw [Tree.resolve, if_neg (by simp), segments_append_slash, segments_of_notMem hn,
    Tree.walk_append]
  simp only [habs]
  cases hw : t.walk (if Absolute (l ++ [slash]) then [] else t.cwd) (segments l) with
  | error e =>
    rw [hw] at h
    cases h
  | ok q₁ =>
    rw [hw] at h
    have hstep : t.step q₁ [] = .ok q := (t.walk_singleton q₁ []).symm.trans h
    have hlex : q = q₁ := Tree.step_lex hstep
    rw [hlex]
    exact t.walk_singleton q₁ n

theorem Tree.step_name (hd : t.IsDirectory q) (hs : ¬ Stays n) (hu : n ≠ dotdot) :
    t.step q n = (t.node (q ++ [n])).map fun _ => q ++ [n] := by
  obtain ⟨j, hj, hdir⟩ := hd
  simp only [Tree.step, hj, hdir, hs, hu, if_false, Bool.true_eq_false]
  cases t.node (q ++ [n]) <;> rfl

end Children

theorem Tree.resolve_all {t : Tree isDir} {p : Bytes} {q : Node} (h : t.resolve p = .ok q)
    (hcwd : t.cwd.all kind = true) (hp : (segments p).all kind = true) : q.all kind = true := by
  rw [Tree.resolve] at h
  split at h
  · cases h
  · rw [Tree.walk_lex h]
    apply lexWalk_all kind _ hp
    split
    · rfl
    · exact hcwd

theorem Tree.walk_dirs {t : Tree isDir} (hdir : ∀ q : Node, q.all kind = true → t.IsDirectory q)
    {q : Node} {ns : List Name} (hq : q.all kind = true) (hns : ns.all kind = true) :
    t.walk q ns = .ok (lexWalk q ns) := by
  induction ns generalizing q with
  | nil => rfl
  | cons n ns ih =>
    simp only [List.all_cons, Bool.and_eq_true] at hns
    have hs : t.step q n = .ok (lexStep q n) := by
      obtain ⟨j, hj, hd⟩ := hdir q hq
      obtain ⟨j', hj', -⟩ := hdir (q ++ [n]) (by simp [List.all_append, hq, hns.1])
      simp only [Tree.step, lexStep, hj, hj', hd, Bool.true_eq_false, if_false]
      split_ifs <;> rfl
    rw [Tree.walk_cons, hs]
    exact ih (lexStep_all kind hq hns.1) hns.2

theorem Tree.walk_kind {t : Tree isDir} (hleaf : ∀ q : Node, t.IsDirectory q → q.all kind = true)
    (hstay : ∀ n, Stays n ∨ n = dotdot → kind n = true) {q q' : Node} {ns : List Name}
    (h : t.walk q ns = .ok q') (hq : q'.all kind = true) : ns.all kind = true := by
  induction ns generalizing q with
  | nil => rfl
  | cons n ns ih =>
    rw [Tree.walk_cons] at h
    cases hs : t.step q n with
    | error e =>
      rw [hs] at h
      cases h
    | ok q₁ =>
      rw [hs] at h
      rw [List.all_cons, Bool.and_eq_true]
      refine ⟨?_, ih h⟩
      by_contra hk
      have hnode : q₁ = q ++ [n] := by
        rw [Tree.step_lex hs, lexStep, if_neg fun hn => hk (hstay n (Or.inl hn)),
          if_neg fun hn => hk (hstay n (Or.inr hn))]
      have hout : ¬ q₁.all kind = true := by simp [hnode, List.all_append, hk]
      cases ns with
      | nil =>
        cases h
        exact hout hq
      | cons m ns =>
        rw [Except.bind, Tree.walk_cons] at h
        cases hm : t.step q₁ m with
        | error e =>
          rw [hm] at h
          cases h
        | ok q₂ => exact hout (hleaf q₁ (Tree.step_dir hm))

/-- The tree of `everything` with files in it. -/
def shelved (file : ι) (files : List Node) (hfiles : ∀ q ∈ files, q.dropLast.all kind = true) :
    Tree isDir where
  node q := if q.all kind then .ok i else if q ∈ files then .ok file else .error .ENOENT
  cwd := cwd
  inDir := by
    intro q n j h
    refine ⟨i, if_pos ?_, hi⟩
    split_ifs at h with hk hm
    · rw [List.all_append, Bool.and_eq_true] at hk
      exact hk.1
    · simpa using hfiles _ hm
  cwdDir := ⟨i, if_pos hcwd, hi⟩

/-- Two steps below the root a walk never ends where it would from the root. -/
theorem lexWalk_ne_of_deep {a b : Name} {p : Bytes} (h : UpOnlyLast p) :
    lexWalk [a, b] (segments p) ≠ lexWalk [] (segments p) := by
  rw [segments_eq_dropLast_getLast, lexWalk_append, lexWalk_append, lexWalk_of_notMem h,
    lexWalk_of_notMem h]
  generalize (segments p).dropLast.filter _ = ds
  generalize (segments p).getLast _ = l
  intro he
  have hlen := congrArg List.length he
  simp only [lexWalk, List.foldl_cons, List.foldl_nil, lexStep] at hlen
  split_ifs at hlen <;>
    simp only [List.length_append, List.length_dropLast, List.length_cons, List.length_nil]
      at hlen <;>
    omega

end Everything

/-- The tree with the given directories and files. -/
def listed {ι : Type} {isDir : ι → Bool} (dir file : ι) (hdir : isDir dir = true)
    (dirs files : List Node) (cwd : Node) (hcwd : cwd ∈ dirs)
    (hup : ∀ q ∈ dirs ++ files, q = [] ∨ q.dropLast ∈ dirs) : Tree isDir where
  node q := if q ∈ dirs then .ok dir else if q ∈ files then .ok file else .error .ENOENT
  cwd := cwd
  inDir := by
    intro q n i h
    have hm : q ++ [n] ∈ dirs ++ files := by
      split_ifs at h with hd hf
      · exact List.mem_append_left _ hd
      · exact List.mem_append_right _ hf
    have hq : q ∈ dirs := by simpa using hup _ hm
    exact ⟨dir, if_pos hq, hdir⟩
  cwdDir := ⟨dir, if_pos hcwd, hdir⟩

end FileTree
