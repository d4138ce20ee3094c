import SimpleServer.Containment

/-!
# Whether the directory that is listed is the one that was resolved

Here the answers of `fopen`, `fstat` and `opendir` all come from one file
tree. `resolve_path` opens `.` and the target up to `?`; `build_response_dir`
lists the target from its second byte on. The two name the same directory
unless the target is `/`, begins with `//`, or has a query. A target so long
that the index name no longer fits is never listed at all: the index pathname
is then the directory itself, which opens.
-/

namespace SimpleServer

open CString FileTree Pathname SlotArray

structure FileSystem where
  tree : Tree Stat.isDir
  readable : Node → Bool
  contents : Node → Bytes
  entries : Node → List Dirent

namespace FileSystem

variable (fs : FileSystem)

def fopen (path : Bytes) : Except Errno Node :=
  match fs.tree.resolve path with
  | .error e => .error e
  | .ok q => if fs.readable q then .ok q else .error .EACCES

def stat (q : Node) : Option Stat := (fs.tree.node q).toOption

def opendir (path : Bytes) : Except Errno Node :=
  match fs.fopen path with
  | .error e => .error e
  | .ok q => if (fs.stat q).any Stat.isDir then .ok q else .error .ENOTDIR

/-- The answers of this file system, everything else being as in `base`. -/
def env (base : Env) : Env :=
  { base with
    fopen := fun _ path => fs.fopen path
    fstat := fun _ q => fs.stat q
    fread := fs.contents
    opendir := fs.opendir
    readdir := fs.entries }

end FileSystem

/-- What `build_response_dir` writes behind the header. -/
def dirBody (dirPath : Bytes) (ds : List Dirent) : Bytes :=
  startHtmlString ++ (if 0 < (dirList dirPath ds).length then dirList dirPath ds
    else emptyDirHtml) ++ endHtmlString

/-- The memory streams are made and times can be converted. -/
structure Working (env : Env) : Prop where
  body : env.bodyStream = true
  out : env.outStream = true
  time : ∀ t, (env.gmtime t).isSome = true

/-- The request is answered with the listing of the directory that
`resolve_path` opened. -/
structure ListsResolved (env : Env) (round : ℕ) (c : Client) (buf : Bytes) : Prop where
  same : ∃ q, env.fopen .target (localPath (parsed env c buf).out.path) = .ok q ∧
    env.opendir ((parsed env c buf).out.path.drop 1) = .ok q
  code : (respond env round c buf).client.respVal = .resp200
  listing : (parsed env c buf).out.method = .get → ∃ q header,
    env.fopen .target (localPath (parsed env c buf).out.path) = .ok q ∧
    (respond env round c buf).client.outBuf =
      some (header ++ dirBody ((parsed env c buf).out.path.drop 1) (env.readdir q))

/-- The pathname of an index file still has a byte of its name. -/
def IndexFits (path : Bytes) : Prop :=
  (localPath path).length + (if getLastChar (localPath path) = .slash then 0 else 1) < pathMax - 1

instance (path : Bytes) : Decidable (IndexFits path) := inferInstanceAs (Decidable (_ < _))

/-- The targets for which the two pathnames name one directory. -/
def PlainTarget (path : Bytes) : Prop :=
  63 ∉ path ∧ path ≠ [slash] ∧ ¬ [slash, slash] <+: path

instance (path : Bytes) : Decidable (PlainTarget path) := inferInstanceAs (Decidable (_ ∧ _))

section Resolving

variable {fs : FileSystem} {base env : Env} {round : ℕ} {c : Client} {buf path : Bytes} {q : Node}

theorem FileSystem.fopen_ok :
    fs.fopen path = .ok q ↔ fs.tree.resolve path = .ok q ∧ fs.readable q = true := by
  simp only [FileSystem.fopen]
  cases fs.tree.resolve path with
  | error e => simp
  | ok q' =>
    by_cases hr : fs.readable q' = true
    · simp only [hr, if_true, Except.ok.injEq]
      exact ⟨fun h => ⟨h, h ▸ hr⟩, fun h => h.1⟩
    · simp only [hr, Except.ok.injEq]
      exact ⟨(fun h => by cases h), fun h => absurd (h.1 ▸ h.2) hr⟩

theorem FileSystem.opendir_ok (h : fs.fopen path = .ok q) {st : Stat} (hs : fs.stat q = some st)
    (hd : st.isDir = true) : fs.opendir path = .ok q := by
  simp [FileSystem.opendir, h, hs, hd]

theorem FileSystem.opendir_fopen (h : fs.opendir path = .ok q) : fs.fopen path = .ok q := by
  simp only [FileSystem.opendir] at h
  split at h
  · cases h
  · rename_i q' hopen
    split at h
    · cases h
      exact hopen
    · cases h

theorem resolvePath_isDir {req : Request} {rp : ResolvedPath}
    (h : (resolvePath env round c req rp).ret = 0)
    (ht : (resolvePath env round c req rp).rp.pathType = .isDir) :
    ∃ q st e, env.fopen .target (localPath req.path) = .ok q ∧ env.fstat .target q = some st ∧
      st.isDir = true ∧ env.fopen .index
        (getFilePath (getLastChar (localPath req.path)) (localPath req.path) dirIndex) =
          .error e := by
  obtain ⟨q, st, ho, hs, hc⟩ := resolvePath_found h
  simp only [resolvePath, ho, hs, resolveOpened, hc, if_false] at h ht
  cases hd : st.isDir with
  | false =>
    simp only [hd, Bool.false_eq_true, if_false] at ht
    split at ht <;> cases ht
  | true =>
    cases hi : env.fopen .index
        (getFilePath (getLastChar (localPath req.path)) (localPath req.path) dirIndex) with
    | error e => exact ⟨q, st, e, ho, hs, hd, rfl⟩
    | ok n =>
      simp only [hd, if_true, resolveDirectory, hi, handleDirIndex] at h ht
      split at ht
      · rename_i hn
        simp only [hn] at h
        cases h
      · cases ht

theorem resolvePath_lists {req : Request} {rp : ResolvedPath} {st : Stat} {e e2 : Errno}
    (ho : env.fopen .target (localPath req.path) = .ok q) (hs : env.fstat .target q = some st)
    (hd : st.isDir = true) (hc : env.flags.c = true)
    (hi : env.fopen .index (getFilePath (getLastChar (localPath req.path)) (localPath req.path)
      dirIndex) = .error e)
    (hi2 : env.fopen .index2 (getFilePath (getLastChar (localPath req.path)) (localPath req.path)
      dirIndex2) = .error e2) :
    (resolvePath env round c req rp).ret = 0 ∧
      (resolvePath env round c req rp).rp.pathType = .isDir := by
  simp only [resolvePath, ho, hs, resolveOpened, hc, Bool.true_eq_false, and_false, if_false, hd,
    if_true, resolveDirectory, hi, hi2, and_self]

end Resolving

section IndexPath

variable {path index p : Bytes}

theorem getFilePath_slash {l : Bytes} (hlen : (l ++ [slash]).length ≤ pathMax - 1) :
    getFilePath (getLastChar (l ++ [slash])) (l ++ [slash]) index =
      l ++ slash :: index.take (pathMax - 1 - (l ++ [slash]).length) := by
  have hl : (l ++ [slash]).getLast? = some 47 := List.getLast?_concat
  rw [getLastChar, if_pos hl, getFilePath, snprintf, List.take_append,
    List.take_of_length_le hlen, List.append_assoc]
  rfl

theorem getFilePath_char (hl : p.getLast? ≠ some 47) (hlen : p.length ≤ pathMax - 1) :
    getFilePath (getLastChar p) p index =
      p ++ (slash :: index).take (pathMax - 1 - p.length) := by
  rw [getLastChar, if_neg hl, getFilePath, snprintf, List.append_assoc, List.take_append,
    List.take_of_length_le hlen]
  rfl

theorem indexPath_fits (hfit : IndexFits path) (hi : index = dirIndex ∨ index = dirIndex2) :
    ∃ l t, getFilePath (getLastChar (localPath path)) (localPath path) index = l ++ slash :: t ∧
      t <+: index ∧ t ≠ [] ∧ (localPath path = l ∨ localPath path = l ++ [slash]) := by
  have hlen := localPath_length path
  have hmax : pathMax = 4096 := rfl
  have hne : ∀ m, 0 < m → index.take m ≠ [] := by
    intro m hm
    have h9 : 9 ≤ index.length := by rcases hi with rfl | rfl <;> decide
    rw [← List.length_pos_iff, List.length_take]
    omega
  rw [IndexFits, getLastChar] at hfit
  by_cases hl : (localPath path).getLast? = some 47
  · obtain ⟨l, hpath⟩ := List.getLast?_eq_some_iff.mp hl
    rw [hpath] at hlen hfit ⊢
    rw [if_pos (by rw [← hpath, if_pos hl])] at hfit
    have hs : (l ++ [slash]).length = (l ++ [47]).length := rfl
    exact ⟨l, _, getFilePath_slash hlen, List.take_prefix _ _, hne _ (by omega), Or.inr rfl⟩
  · rw [if_neg (by rw [if_neg hl]; intro h; cases h)] at hfit
    obtain ⟨m, hm⟩ : ∃ m, pathMax - 1 - (localPath path).length = m + 1 :=
      ⟨pathMax - 1 - (localPath path).length - 1, by omega⟩
    refine ⟨localPath path, index.take m, ?_, List.take_prefix _ _, hne m (by omega), Or.inl rfl⟩
    rw [getFilePath_char hl hlen, hm, List.take_succ_cons]

theorem indexPath_cut (hfit : ¬ IndexFits path) :
    getFilePath (getLastChar (localPath path)) (localPath path) index = localPath path ∨
      getFilePath (getLastChar (localPath path)) (localPath path) index =
        localPath path ++ [slash] := by
  have hlen := localPath_length path
  have hmax : pathMax = 4096 := rfl
  rw [IndexFits, getLastChar] at hfit
  by_cases hl : (localPath path).getLast? = some 47
  · obtain ⟨l, hpath⟩ := List.getLast?_eq_some_iff.mp hl
    rw [if_pos (by rw [if_pos hl])] at hfit
    rw [hpath] at hlen hfit ⊢
    have hz : pathMax - 1 - (l ++ [slash]).length = 0 := by
      have hs : (l ++ [slash]).length = (l ++ [47]).length := rfl
      omega
    left
    exact (getFilePath_slash hlen).trans (by rw [hz]; rfl)
  · rw [if_neg (by rw [if_neg hl]; intro h; cases h)] at hfit
    rw [getFilePath_char hl hlen]
    have hz : pathMax - 1 - (localPath path).length = 0 ∨
        pathMax - 1 - (localPath path).length = 1 := by omega
    rcases hz with hz | hz
    · left
      rw [hz, List.take_zero, List.append_nil]
    · right
      rw [hz]
      rfl

end IndexPath

section Agreement

variable {fs : FileSystem} {base env : Env} {round : ℕ} {c : Client} {rp : ResolvedPath}
  {req : Request} {buf path : Bytes} {q : Node}

theorem buildResponseDir_working (hw : Working env) (ht : rp.pathType = .isDir)
    (hd : env.opendir (req.path.drop 1) = .ok q) :
    (buildResponseDir env round c rp req).ret = 0 ∧
      (buildResponseDir env round c rp req).client.respVal = c.respVal ∧
      (req.method = .get → ∃ header, (buildResponseDir env round c rp req).client.outBuf =
        some (header ++ dirBody (req.path.drop 1) (env.readdir q))) := by
  obtain ⟨m, hm⟩ := Option.isSome_iff_exists.mp (hw.time rp.lastMod)
  simp only [buildResponseDir, ht, ne_eq, not_true, if_false, hd, hw.body, hw.out, hm,
    Bool.true_eq_false]
  split
  · rename_i hhead
    refine ⟨rfl, rfl, fun hget => ?_⟩
    rw [hhead] at hget
    cases hget
  · refine ⟨rfl, rfl, fun _ => ?_⟩
    simp only [dirBody, List.append_assoc]
    exact ⟨_, rfl⟩

theorem listsResolved_of_same (hw : Working env) (hp : (parsed env c buf).ret = 0)
    (hr : (resolved env round c buf).ret = 0)
    (ht : (resolved env round c buf).rp.pathType = .isDir)
    (ho : env.fopen .target (localPath (parsed env c buf).out.path) = .ok q)
    (hd : env.opendir ((parsed env c buf).out.path.drop 1) = .ok q) :
    ListsResolved env round c buf := by
  obtain ⟨hret, hresp, hout⟩ : (buildResponseDir env round
      { (resolved env round c buf).client with respVal := .resp200 }
      (resolved env round c buf).rp (parsed env c buf).out).ret = 0 ∧ _ :=
    buildResponseDir_working hw ht hd
  have hb : buildOkayResponse env round (resolved env round c buf).client
      (resolved env round c buf).rp (parsed env c buf).out =
      buildResponseDir env round { (resolved env round c buf).client with respVal := .resp200 }
        (resolved env round c buf).rp (parsed env c buf).out := by
    simp only [buildOkayResponse, buildByType, ht, hret, lt_irrefl, if_false]
  refine ⟨⟨q, ho, hd⟩, ?_, fun hget => ?_⟩
  · rw [respond_found hp hr, hb]
    exact hresp
  · obtain ⟨header, hbody⟩ := hout hget
    refine ⟨q, header, ho, ?_⟩
    rw [respond_found hp hr, hb]
    exact hbody

theorem openedPart_of_fits (hfit : IndexFits path) (hq : 63 ∉ path) : openedPart path = path := by
  have hmax : pathMax = 4096 := rfl
  have htake : openedPart path = path.take (pathMax - 2) := by
    rw [openedPart, List.takeWhile_eq_self_iff]
    intro b hb
    have hne : b ≠ 63 := fun he => hq (he ▸ List.mem_of_mem_take hb)
    simpa using hne
  have hlen : (localPath path).length = (path.take (pathMax - 2)).length + 1 := by
    rw [localPath_eq_dot, htake]
    rfl
  rw [List.length_take] at hlen
  rw [IndexFits] at hfit
  rw [htake]
  apply List.take_of_length_le
  omega

theorem FileSystem.stat_ok {st : Stat} (h : fs.stat q = some st) : fs.tree.node q = .ok st := by
  simp only [FileSystem.stat] at h
  cases hn : fs.tree.node q with
  | error e =>
    rw [hn] at h
    cases h
  | ok st' =>
    rw [hn] at h
    cases h
    rfl

theorem plain_same (ht : Target path) (hfit : IndexFits path) (hplain : PlainTarget path)
    (t : Tree Stat.isDir) : t.resolve (localPath path) = t.resolve (path.drop 1) := by
  obtain ⟨rest, rfl⟩ := ht.rooted
  rw [localPath_eq_dot, openedPart_of_fits hfit hplain.1, List.drop_one, List.tail_cons]
  apply t.resolve_dot_slash
  · intro hr
    exact hplain.2.1 (by rw [hr])
  · intro ha
    apply hplain.2.2
    obtain ⟨u, hu⟩ := List.head?_eq_some_iff.mp ha
    rw [hu]
    exact ⟨u, rfl⟩

theorem listed_fits (hr : (resolved (fs.env base) round c buf).ret = 0)
    (ht : (resolved (fs.env base) round c buf).rp.pathType = .isDir) :
    IndexFits (parsed (fs.env base) c buf).out.path := by
  by_contra hfit
  obtain ⟨q, st, e, ho, hs, hd, hi⟩ := resolvePath_isDir hr ht
  obtain ⟨hres, hread⟩ := FileSystem.fopen_ok.mp ho
  -- the index pathname is the directory, and that has just been opened
  have hslash := fs.tree.resolve_trailing_slash hres ⟨st, FileSystem.stat_ok hs, hd⟩
  have hopen : fs.fopen
      (getFilePath (getLastChar (localPath (parsed (fs.env base) c buf).out.path))
        (localPath (parsed (fs.env base) c buf).out.path) dirIndex) = .ok q := by
    apply FileSystem.fopen_ok.mpr
    rcases indexPath_cut hfit with hcut | hcut
    · rw [hcut]
      exact ⟨hres, hread⟩
    · rw [hcut]
      exact ⟨hslash, hread⟩
  have hno := hopen.symm.trans hi
  cases hno

theorem opendir_of_plain (hp : (parsed (fs.env base) c buf).ret = 0)
    (hplain : PlainTarget (parsed (fs.env base) c buf).out.path)
    (hr : (resolved (fs.env base) round c buf).ret = 0)
    (ht : (resolved (fs.env base) round c buf).rp.pathType = .isDir) :
    ∃ q, fs.fopen (localPath (parsed (fs.env base) c buf).out.path) = .ok q ∧
      fs.opendir ((parsed (fs.env base) c buf).out.path.drop 1) = .ok q := by
  obtain ⟨q, st, -, ho, hs, hd, -⟩ := resolvePath_isDir hr ht
  obtain ⟨hres, hread⟩ := FileSystem.fopen_ok.mp ho
  rw [plain_same (parsed_target hp) (listed_fits hr ht) hplain] at hres
  exact ⟨q, ho, FileSystem.opendir_ok (FileSystem.fopen_ok.mpr ⟨hres, hread⟩) hs hd⟩

theorem lists_of_plain (hw : Working base) (hp : (parsed (fs.env base) c buf).ret = 0)
    (hplain : IndexFits (parsed (fs.env base) c buf).out.path →
      PlainTarget (parsed (fs.env base) c buf).out.path)
    (hr : (resolved (fs.env base) round c buf).ret = 0)
    (ht : (resolved (fs.env base) round c buf).rp.pathType = .isDir) :
    ListsResolved (fs.env base) round c buf := by
  obtain ⟨q, ho, hd⟩ := opendir_of_plain hp (hplain (listed_fits hr ht)) hr ht
  exact listsResolved_of_same ⟨hw.body, hw.out, hw.time⟩ hp hr ht ho hd

end Agreement

section Disagreement

/-!
### File systems in which the target is listed

Every name without `?` is a directory, the server stands two steps below the
root, and only the directory that the target names can be read.
-/

variable {fs : FileSystem} {round : ℕ} {c : Client} {buf path index p : Bytes}

def noQuery (n : Name) : Bool := decide (63 ∉ n)

def deepCwd : Node := [ascii "srv", ascii "www"]

theorem deepCwd_noQuery : deepCwd.all noQuery = true := by decide

theorem directory_isDir : Stat.isDir ⟨true, 0, 0⟩ = true := rfl

def onlyTarget (path : Bytes) : FileSystem where
  tree := everything ⟨true, 0, 0⟩ directory_isDir noQuery deepCwd deepCwd_noQuery
  readable q := decide (q = lexWalk deepCwd (segments (localPath path)))
  contents _ := []
  entries _ := []

def workingEnv : Env :=
  { emptyEnv with
    flags := ⟨true, false, false, false, false⟩
    gmtime := fun _ => some emptyEnv.timeReceived }

theorem workingEnv_working : Working workingEnv := ⟨rfl, rfl, fun _ => rfl⟩

theorem segments_noQuery : (segments p).all noQuery = true ↔ 63 ∉ p := by
  rw [← not_iff_not, not_not, ← exists_mem_segments (p := p) (b := 63) (by decide)]
  simp [noQuery]

theorem localPath_noQuery (path : Bytes) : 63 ∉ localPath path := by
  rw [localPath_eq]
  intro h
  rcases List.mem_cons.mp h with h | h
  · exact absurd h (by decide)
  · simpa using List.mem_takeWhile_imp h

/-- The directory that the target names. -/
def targetNode (path : Bytes) : Node := lexWalk deepCwd (segments (localPath path))

theorem targetNode_noQuery (path : Bytes) : (targetNode path).all noQuery = true :=
  lexWalk_all noQuery (by decide) (segments_noQuery.mpr (localPath_noQuery path))

structure ShowsTarget (fs : FileSystem) (path : Bytes) : Prop where
  cwd : fs.tree.cwd = deepCwd
  dirs : ∀ q, q.all noQuery = true → fs.tree.node q = .ok ⟨true, 0, 0⟩
  leaves : ∀ q, fs.tree.IsDirectory q → q.all noQuery = true
  readable : ∀ q, fs.readable q = true ↔ q = targetNode path

theorem onlyTarget_shows (path : Bytes) : ShowsTarget (onlyTarget path) path := by
  refine ⟨rfl, fun q hq => if_pos hq, fun q hq => ?_, fun q => decide_eq_true_iff⟩
  obtain ⟨j, hj, -⟩ := hq
  by_contra hk
  rw [show (onlyTarget path).tree.node q = .error .ENOENT from if_neg hk] at hj
  cases hj

namespace ShowsTarget

theorem resolve (hf : ShowsTarget fs path) (hp : p ≠ []) (hq : 63 ∉ p) :
    fs.tree.resolve p = .ok (lexWalk (if Absolute p then [] else deepCwd) (segments p)) := by
  have hstart : (if Absolute p then [] else deepCwd).all noQuery = true := by
    split <;> decide
  rw [Tree.resolve, if_neg hp, hf.cwd]
  exact Tree.walk_dirs noQuery (fun q hk => ⟨_, hf.dirs q hk, rfl⟩) hstart
    (segments_noQuery.mpr hq)

theorem noQuery_of_target (hf : ShowsTarget fs path)
    (h : fs.tree.resolve p = .ok (targetNode path)) : 63 ∉ p := by
  rw [Tree.resolve] at h
  split at h
  · cases h
  · apply segments_noQuery.mp
    apply Tree.walk_kind noQuery hf.leaves _ h (targetNode_noQuery path)
    intro n hn
    rcases hn with (rfl | rfl) | rfl <;> decide

theorem behind (hf : ShowsTarget fs path) {u : Bytes} (hu : 63 ∉ u) :
    fs.tree.resolve (localPath path ++ u) =
      .ok (lexWalk deepCwd (segments (localPath path ++ u))) := by
  have habs : ¬ Absolute (localPath path ++ u) := by
    rw [localPath_eq_dot, List.append_assoc]
    exact not_absolute_dot _
  have hne : localPath path ++ u ≠ [] := by
    rw [localPath_eq_dot]
    exact List.cons_ne_nil _ _
  have hq : 63 ∉ localPath path ++ u := by
    rw [List.mem_append, not_or]
    exact ⟨localPath_noQuery path, hu⟩
  rw [hf.resolve hne hq, if_neg habs]

theorem fopen (hf : ShowsTarget fs path) :
    fs.fopen (localPath path) = .ok (targetNode path) := by
  have hres := hf.behind List.not_mem_nil
  rw [List.append_nil] at hres
  exact FileSystem.fopen_ok.mpr ⟨hres, (hf.readable _).mpr rfl⟩

theorem index_unread (hf : ShowsTarget fs path) (hfit : IndexFits path)
    (hi : index = dirIndex ∨ index = dirIndex2) :
    ∃ e, fs.fopen (getFilePath (getLastChar (localPath path)) (localPath path) index) =
      .error e := by
  obtain ⟨l, t, hidx, ht, hne, hl⟩ := indexPath_fits hfit hi
  obtain ⟨hslash, hup, hdot⟩ := index_piece hi ht
  have hquery : 63 ∉ t := by
    have hi' : 63 ∉ index := by rcases hi with rfl | rfl <;> decide
    exact fun hm => hi' (ht.subset hm)
  have hdir : targetNode path = lexWalk deepCwd (segments l) := by
    rcases hl with hl | hl
    · rw [targetNode, hl]
    · rw [targetNode, hl, segments_append_slash, lexWalk_append]
      rfl
  have hres : fs.tree.resolve (l ++ slash :: t) =
      .ok (lexWalk deepCwd (segments (l ++ slash :: t))) := by
    rcases hl with rfl | hl
    · apply hf.behind
      rw [List.mem_cons, not_or]
      exact ⟨by decide, hquery⟩
    · rw [show l ++ slash :: t = localPath path ++ t by rw [hl, List.append_assoc]; rfl]
      exact hf.behind hquery
  have hdown : lexWalk deepCwd (segments (l ++ slash :: t)) = targetNode path ++ [t] := by
    have hstays : ¬ Stays t := not_or.mpr ⟨hne, hdot⟩
    rw [segments_append_slash, segments_of_notMem hslash, lexWalk_append, ← hdir]
    simp [lexWalk, lexStep, hstays, hup]
  rw [hidx, FileSystem.fopen, hres, hdown]
  refine ⟨.EACCES, if_neg ?_⟩
  rw [hf.readable]
  simp

theorem lists (hf : ShowsTarget fs path) {req : Request} {rp : ResolvedPath}
    (hp : req.path = path) (hfit : IndexFits path) :
    (resolvePath (fs.env workingEnv) round c req rp).ret = 0 ∧
      (resolvePath (fs.env workingEnv) round c req rp).rp.pathType = .isDir := by
  subst hp
  have hstat : fs.stat (targetNode req.path) = some ⟨true, 0, 0⟩ :=
    congrArg Except.toOption (hf.dirs _ (targetNode_noQuery req.path))
  obtain ⟨e, hi⟩ := hf.index_unread hfit (Or.inl rfl)
  obtain ⟨e2, hi2⟩ := hf.index_unread hfit (Or.inr rfl)
  exact resolvePath_lists hf.fopen hstat rfl rfl hi hi2

/-- The pathname to be listed does not lead to the target. -/
theorem elsewhere (hf : ShowsTarget fs path) (ht : Target path) (hfit : IndexFits path)
    (hplain : ¬ PlainTarget path) : fs.tree.resolve (path.drop 1) ≠ .ok (targetNode path) := by
  intro hres
  obtain ⟨rest, hpath⟩ := ht.rooted
  have hdrop : path.drop 1 = rest := by rw [hpath]; rfl
  rw [hdrop] at hres
  have hrest := hf.noQuery_of_target hres
  have hq : 63 ∉ path := by
    rw [hpath, List.mem_cons, not_or]
    exact ⟨by decide, hrest⟩
  cases rest with
  | nil => cases hres
  | cons b rest =>
    have habs : Absolute (b :: rest) := by
      by_contra hb
      apply hplain
      refine ⟨hq, ?_, ?_⟩
      · rw [hpath]
        simp
      · rw [hpath]
        intro hp
        exact hb (by simpa [Absolute, eq_comm] using hp)
    have hup : UpOnlyLast (b :: rest) := by
      apply upOnlyLast_of_not_infix
      intro hd
      apply ht.clean
      rw [hpath]
      exact hd.trans (List.suffix_cons slash _).isInfix
    have hlocal : targetNode path = lexWalk deepCwd (segments (b :: rest)) := by
      rw [targetNode, localPath_eq_dot, openedPart_of_fits hfit hq, hpath, segments_append_slash,
        segments_of_notMem (by decide), lexWalk_append]
      rfl
    rw [hf.resolve (List.cons_ne_nil _ _) hrest, if_pos habs, hlocal] at hres
    exact lexWalk_ne_of_deep hup (Except.ok.inj hres).symm

end ShowsTarget

end Disagreement

/-- A request that is resolved to a directory is answered with the listing of
that directory, whatever the file system, if and only if its target has no
query, is not `/` and does not begin with `//`, or is so long that no directory
is ever listed for it. -/
theorem listing_is_resolved_iff (env₀ : Env) (c : Client) (buf : Bytes)
    (h : (parsed env₀ c buf).ret = 0) :
    (∀ (fs : FileSystem) base, Working base → ∀ round,
      (resolved (fs.env base) round c buf).ret = 0 →
      (resolved (fs.env base) round c buf).rp.pathType = .isDir →
      ListsResolved (fs.env base) round c buf) ↔
    (IndexFits (parsed env₀ c buf).out.path → PlainTarget (parsed env₀ c buf).out.path) := by
  have hret : ∀ env, (parsed env c buf).ret = 0 := fun env => (parsed_env env env₀ c buf).1.trans h
  have hpath : ∀ env, (parsed env c buf).out.path = (parsed env₀ c buf).out.path :=
    fun env => (parsed_env env env₀ c buf).2
  constructor
  · intro hall hfit
    by_contra hplain
    have htarget := parsed_target h
    generalize (parsed env₀ c buf).out.path = path at hfit hplain htarget hpath
    have hf := onlyTarget_shows path
    have hd : (resolved ((onlyTarget path).env workingEnv) 0 c buf).ret = 0 ∧
        (resolved ((onlyTarget path).env workingEnv) 0 c buf).rp.pathType = .isDir :=
      hf.lists (hpath _) hfit
    obtain ⟨q, ho, hq⟩ := (hall _ workingEnv workingEnv_working 0 hd.1 hd.2).same
    rw [hpath] at ho hq
    have hsame : q = targetNode path := Except.ok.inj (ho.symm.trans hf.fopen)
    apply hf.elsewhere htarget hfit hplain
    rw [← hsame]
    exact (FileSystem.fopen_ok.mp (FileSystem.opendir_fopen hq)).1
  · intro hplain fs base hw round hr ht
    rw [← hpath (fs.env base)] at hplain
    exact lists_of_plain hw (hret _) hplain hr ht

theorem listing_is_resolved_iff_nested :
    let c := { blankClient with headerLen := 19 }
    let buf := ascii "GET /a HTTP/1.0\r\n\r\n"
    let fs := onlyTarget (ascii "/a")
    (resolved (fs.env workingEnv) 0 c buf).ret = 0 ∧
      (resolved (fs.env workingEnv) 0 c buf).rp.pathType = .isDir ∧
      ListsResolved (fs.env workingEnv) 0 c buf := by
  intro c buf fs
  have hr : (resolved (fs.env workingEnv) 0 c buf).ret = 0 ∧
      (resolved (fs.env workingEnv) 0 c buf).rp.pathType = .isDir := by decide +kernel
  refine ⟨hr.1, hr.2, ?_⟩
  exact (listing_is_resolved_iff emptyEnv c buf (by decide +kernel)).mpr (by decide +kernel) fs
    workingEnv workingEnv_working 0 hr.1 hr.2

/-- The document root is resolved to a directory, but `opendir` is handed the
empty pathname. -/
theorem root_not_listed :
    let c := { blankClient with headerLen := 18 }
    let buf := ascii "GET / HTTP/1.0\r\n\r\n"
    let env := (onlyTarget (ascii "/")).env workingEnv
    (parsed env c buf).ret = 0 ∧ (resolved env 0 c buf).ret = 0 ∧
      (resolved env 0 c buf).rp.pathType = .isDir ∧ env.fopen .target (ascii "./") = .ok deepCwd ∧
      env.opendir [] = .error .ENOENT ∧ .opendir [] ∈ (respond env 0 c buf).events ∧
      (respond env 0 c buf).client.respVal = .resp500 := by
  decide +kernel

end SimpleServer
