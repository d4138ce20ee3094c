import SimpleServer.Listing
import SimpleServer.Requests.Grammar

/-!
# The names that `resolve_path` makes of a target

The target is put behind `.` in a buffer of `PATH_MAX` bytes, taken apart at
`?` by two calls of `strtok`, and completed by the name of an index file in
another buffer of the same size. The calls of `strtok` skip a run of
delimiters and stop at the next one, so a query with a `?` of its own is not
recovered; `snprintf` cuts what does not fit, so a long target is mapped to
another name. A directory is found with and without a trailing `/`, except that
the prefix test for CGI programs sees `./cgi-bin/` only with it.
-/

namespace SimpleServer

open CString FileTree Pathname SlotArray

section Split

variable {path q : Bytes}

theorem pathBuffer_short (h : path.length ≤ pathMax - 2) : pathBuffer path = dot ++ path := by
  apply List.take_of_length_le
  have hmax : pathMax = 4096 := rfl
  have hl : (baseUrl ++ path).length = path.length + 1 := rfl
  omega

theorem strtok_component (path : Bytes) :
    strtok 63 (dot ++ path) = (some (dot ++ component path), queryPart path) := by
  simp [strtok, dot, component, queryPart]

theorem localPath_short (h : path.length ≤ pathMax - 2) :
    localPath path = dot ++ component path := by
  rw [localPath, pathBuffer_short h, strtok_component]
  rfl

/-- The second call of `strtok` returns what it is given if that has no further
delimiter, and only then. -/
theorem strtok_whole_iff : (strtok 63 q).1.getD [] = q ↔ 63 ∉ q := by
  constructor
  · intro h
    cases ht : (strtok 63 q).1 with
    | none =>
      rw [ht] at h
      rw [← h]
      exact List.not_mem_nil
    | some t =>
      rw [ht] at h
      rw [← h]
      exact (strtok_some (Prod.ext ht rfl : strtok 63 q = (some t, (strtok 63 q).2))).2.1
  · intro h
    rw [(strtok_tokens 63 q).1]
    by_cases hq : q = []
    · rw [hq]
      rfl
    · rw [tokens_run hq h]
      rfl

theorem storeQuery_short (h : path.length ≤ pathMax - 2) :
    (storeQuery .zero path).queryString = (strtok 63 (queryPart path)).1.getD [] := by
  have hq : queryBuffer path = (strtok 63 (queryPart path)).1 := by
    rw [queryBuffer, pathBuffer_short h, strtok_component]
  rw [storeQuery, hq]
  cases ht : (strtok 63 (queryPart path)).1 with
  | none => rfl
  | some t =>
    have hin := (strtok_some (Prod.ext ht rfl :
      strtok 63 (queryPart path) = (some t, (strtok 63 (queryPart path)).2))).2.2
    have hsuf : queryPart path <:+ path :=
      (List.drop_suffix _ _).trans (List.dropWhile_suffix _)
    have hlen := hin.length_le.trans hsuf.length_le
    have hmax : pathMax = 4096 := rfl
    exact strlcpy_of_length_lt (by omega)

end Split

section Resolve

variable (env : Env) (round : ℕ) (c : Client) (req : Request) (rp : ResolvedPath)

theorem resolvePath_queryString : (resolvePath env round c req rp).rp.queryString =
    (storeQuery rp req.path).queryString := by
  have hi : ∀ rp h, (handleDirIndex env c rp h).rp.queryString = rp.queryString := by
    intro rp h
    simp only [handleDirIndex]
    split <;> rfl
  simp only [resolvePath, resolveOpened, resolveDirectory]
  repeat' split
  all_goals first | rfl | exact hi _ _

/-- `resolve_path` reaches the index files of a directory. -/
def servesDirectory (env : Env) (path : Bytes) : Bool :=
  match env.fopen .target path with
  | .error _ => false
  | .ok node =>
    match env.fstat .target node with
    | none => false
    | some st => st.isDir && !(pathIncludesCgi path && !env.flags.c)

/-- The pathnames handed out when the two index files are called `index` and
`index2`. -/
def namesTried (env : Env) (path index index2 : Bytes) : List Bytes :=
  path :: if servesDirectory env path then
    index :: (match env.fopen .index index with
      | .ok _ => []
      | .error _ => [index2])
  else []

theorem resolvePath_names : (resolvePath env round c req rp).events.filterMap Event.pathname =
    namesTried env (localPath req.path)
      (getFilePath (getLastChar (localPath req.path)) (localPath req.path) dirIndex)
      (getFilePath (getLastChar (localPath req.path)) (localPath req.path) dirIndex2) := by
  have hi : ∀ rp h, (handleDirIndex env c rp h).events.filterMap Event.pathname = [] := by
    intro rp h
    simp only [handleDirIndex]
    split <;> rfl
  generalize hl : localPath req.path = path
  cases ho : env.fopen .target path with
  | error e =>
    have hs : servesDirectory env path = false := by simp [servesDirectory, ho]
    simp [resolvePath, namesTried, hl, ho, hs, Event.pathname]
  | ok node =>
    cases hst : env.fstat .target node with
    | none =>
      have hs : servesDirectory env path = false := by simp [servesDirectory, ho, hst]
      simp [resolvePath, namesTried, hl, ho, hst, hs, Event.pathname]
    | some st =>
      have hs : servesDirectory env path =
          (st.isDir && !(pathIncludesCgi path && !env.flags.c)) := by
        simp [servesDirectory, ho, hst]
      simp only [resolvePath, hl, ho, hst, resolveOpened, namesTried]
      by_cases hc : pathIncludesCgi path = true ∧ env.flags.c = false
      · simp [hs, hc, Event.pathname]
      have hgo : (!(pathIncludesCgi path && !env.flags.c)) = true := by
        cases hp : pathIncludesCgi path <;> cases hf : env.flags.c <;> simp_all
      rw [hgo, Bool.and_true] at hs
      simp only [hc, if_false]
      cases hd : st.isDir with
      | false => simp [hs, hd, Event.pathname]
      | true =>
        simp only [hs, hd, if_true, resolveDirectory]
        cases hx : env.fopen .index (getFilePath (getLastChar path) path dirIndex) with
        | ok n =>
          simp only [List.cons_append, List.nil_append, List.filterMap_cons, Event.pathname, hi]
        | error e =>
          cases hy : env.fopen .index2 (getFilePath (getLastChar path) path dirIndex2) with
          | ok n =>
            simp only [List.cons_append, List.nil_append, List.filterMap_cons, Event.pathname, hi]
          | error e => rfl

end Resolve

/-- The two parts of the target arrive where they belong. -/
structure SplitsTarget (env : Env) (round : ℕ) (c : Client) (req : Request) : Prop where
  opened : (resolvePath env round c req .zero).events.head? =
    some (.fopen (dot ++ component req.path))
  query : (resolvePath env round c req .zero).rp.queryString = queryPart req.path
  recovered : 63 ∈ req.path →
    component req.path ++ 63 :: (resolvePath env round c req .zero).rp.queryString = req.path
  script : (resolvePath env round c req .zero).rp.pathType = .isCgi → ∀ c' call,
    .execvp call ∈
      (buildResponseCgi env round c' (resolvePath env round c req .zero).rp req).events →
    call.queryString = queryPart req.path

theorem resolvePath_head (env : Env) (round : ℕ) (c : Client) (req : Request) (rp : ResolvedPath) :
    (resolvePath env round c req rp).events.head? = some (.fopen (localPath req.path)) := by
  simp only [resolvePath]
  repeat' split
  all_goals rfl

/-- A target that fits is split without loss if and only if its query has
no further `?`. -/
theorem target_split_iff (env : Env) (round : ℕ) (c : Client) (req : Request)
    (hlen : req.path.length ≤ pathMax - 2) :
    SplitsTarget env round c req ↔ 63 ∉ queryPart req.path := by
  have hquery : (resolvePath env round c req .zero).rp.queryString =
      (strtok 63 (queryPart req.path)).1.getD [] :=
    (resolvePath_queryString env round c req .zero).trans (storeQuery_short hlen)
  constructor
  · intro h
    exact strtok_whole_iff.mp (hquery.symm.trans h.query)
  · intro h
    have hq := hquery.trans (strtok_whole_iff.mpr h)
    refine ⟨?_, hq, fun hm => ?_, fun ht c' call hcall => ?_⟩
    · rw [resolvePath_head, localPath_short hlen]
    · rw [hq]
      exact (component_query hm).symm
    · cases buildResponseCgi_events env round c' _ req ht _ hcall with
      | execvp _ => exact hq

theorem target_split_iff_query :
    let req : Request := { Request.zero with path := ascii "/cgi-bin/a?b=1&c=2" }
    req.path.length ≤ pathMax - 2 ∧ SplitsTarget emptyEnv 0 blankClient req := by
  intro req
  have hlen : req.path.length ≤ pathMax - 2 := by decide
  exact ⟨hlen, (target_split_iff emptyEnv 0 blankClient req hlen).mpr (by decide +kernel)⟩

theorem second_question_mark_lost :
    let req : Request := { Request.zero with path := ascii "/a?b?c" }
    queryPart req.path = ascii "b?c" ∧
      (resolvePath emptyEnv 0 blankClient req .zero).rp.queryString = ascii "b" ∧
      ¬ SplitsTarget emptyEnv 0 blankClient req := by
  intro req
  have hquery : (resolvePath emptyEnv 0 blankClient req .zero).rp.queryString = ascii "b" := by
    decide +kernel
  refine ⟨by decide +kernel, hquery, fun h => ?_⟩
  exact absurd (hquery.symm.trans h.query) (by decide +kernel)

section Names

variable {env : Env} {round : ℕ} {c : Client} {buf path index : Bytes}

def indexName (a index : Bytes) : Bytes :=
  dot ++ a ++ (if (dot ++ a).getLast? = some slash then [] else [slash]) ++ index

/-- Every pathname handed out is the one that is meant, or none is and the
target is refused. -/
structure NamesExact (env : Env) (round : ℕ) (c : Client) (buf : Bytes) (path : Bytes) : Prop where
  opened : (resolved env round c buf).events.filterMap Event.pathname =
      namesTried env (dot ++ component path) (indexName (component path) dirIndex)
        (indexName (component path) dirIndex2) ∨
    (resolved env round c buf).events.filterMap Event.pathname = [] ∧
      (resolved env round c buf).ret = -1
  executed : ∀ call, .execvp call ∈ (respond env round c buf).events →
    call.path = dot ++ component path ∧ .fopen call.path ∈ (resolved env round c buf).events
  room : (scriptPath path).length + 1 ≤ pathMax + 1

/-- The names that are tried fit into their buffers. -/
def NamesFit (env : Env) (path : Bytes) : Prop :=
  (component path).length ≤ pathMax - 2 ∧
    (servesDirectory env (dot ++ component path) = true →
      (indexName (component path) dirIndex).length ≤ pathMax - 1 ∧
        ((env.fopen .index (indexName (component path) dirIndex)).isOk = false →
          (indexName (component path) dirIndex2).length ≤ pathMax - 1))

theorem localPath_eq_take (path : Bytes) :
    localPath path = dot ++ (component path).take (pathMax - 2) := by
  rw [localPath_eq_dot, openedPart, component, List.take_takeWhile]

theorem localPath_exact_iff :
    localPath path = dot ++ component path ↔ (component path).length ≤ pathMax - 2 := by
  rw [localPath_eq_take, List.append_cancel_left_eq, List.take_eq_self_iff]

theorem getFilePath_eq_take (a index : Bytes) :
    getFilePath (getLastChar (dot ++ a)) (dot ++ a) index =
      (indexName a index).take (pathMax - 1) := by
  by_cases hl : (dot ++ a).getLast? = some slash
  · have h47 : (dot ++ a).getLast? = some 47 := hl
    rw [getLastChar, if_pos h47, getFilePath, snprintf, indexName, if_pos hl, List.append_nil]
  · have h47 : ¬ (dot ++ a).getLast? = some 47 := hl
    rw [getLastChar, if_neg h47, getFilePath, snprintf, indexName, if_neg hl]
    rfl

theorem getFilePath_exact_iff (a index : Bytes) :
    getFilePath (getLastChar (dot ++ a)) (dot ++ a) index = indexName a index ↔
      (indexName a index).length ≤ pathMax - 1 := by
  rw [getFilePath_eq_take, List.take_eq_self_iff]

theorem scriptPath_eq (hz : 0 ∉ path) : scriptPath path = dot ++ component path := by
  have hp : path.takeWhile (fun b => b != 0 && b != 63) = path.takeWhile (· != 63) := by
    induction path with
    | nil => rfl
    | cons b path ih =>
      have hb : (b != 0) = true := by
        have hne : b ≠ 0 := fun he => hz (he ▸ List.mem_cons_self)
        simpa using hne
      rw [List.takeWhile_cons, List.takeWhile_cons, hb, Bool.true_and,
        ih fun hm => hz (List.mem_cons_of_mem b hm)]
  exact congrArg (46 :: ·) hp

theorem respond_execvp {call : ExecCall} (h : (parsed env c buf).ret = 0)
    (hcall : .execvp call ∈ (respond env round c buf).events) :
    call.path = scriptPath (parsed env c buf).out.path := by
  have hres : .execvp call ∉ (resolved env round c buf).events := by
    intro hm
    cases resolvePath_events env round _ _ _ _ hm
  by_cases hr : (resolved env round c buf).ret = 0
  · rw [respond_found h hr] at hcall
    cases buildOkayResponse_events env round _ _ _ _ ((List.mem_append.mp hcall).resolve_left hres)
    rfl
  · rw [respond_unresolved h hr] at hcall
    cases buildErrorResponse_events env round _ .zero _ _
      ((List.mem_append.mp hcall).resolve_left hres) with
    | execvp hp => cases hp

theorem namesTried_eq_iff {i i2 j j2 : Bytes} (h : servesDirectory env path = true) :
    namesTried env path i i2 = namesTried env path j j2 ↔
      i = j ∧ ((env.fopen .index j).isOk = false → i2 = j2) := by
  simp only [namesTried, h, if_true, List.cons.injEq, true_and]
  refine and_congr_right fun hi => ?_
  rw [hi]
  cases env.fopen .index j with
  | ok n => simp [Except.isOk, Except.toBool]
  | error e => simp [Except.isOk, Except.toBool]

theorem NamesExact.fit (h : NamesExact env round c buf (parsed env c buf).out.path) :
    NamesFit env (parsed env c buf).out.path := by
  have hnames : (resolved env round c buf).events.filterMap Event.pathname = _ :=
    resolvePath_names env round _ (parsed env c buf).out .zero
  generalize (parsed env c buf).out.path = path at *
  rcases h.opened with heq | ⟨hnil, -⟩
  · rw [hnames] at heq
    have hlocal : localPath path = dot ++ component path := (List.cons.inj heq).1
    refine ⟨localPath_exact_iff.mp hlocal, fun hd => ?_⟩
    rw [hlocal, namesTried_eq_iff hd, getFilePath_exact_iff, getFilePath_exact_iff] at heq
    exact heq
  · rw [hnames] at hnil
    cases hnil

theorem NamesFit.exact (h : (parsed env c buf).ret = 0)
    (hfit : NamesFit env (parsed env c buf).out.path) :
    NamesExact env round c buf (parsed env c buf).out.path := by
  have htarget := parsed_target h
  have hcall : ∀ call, .execvp call ∈ (respond env round c buf).events →
      call.path = scriptPath (parsed env c buf).out.path := fun call hm => respond_execvp h hm
  have hnames : (resolved env round c buf).events.filterMap Event.pathname = _ :=
    resolvePath_names env round _ (parsed env c buf).out .zero
  have hhead : (resolved env round c buf).events.head? = _ :=
    resolvePath_head env round _ (parsed env c buf).out .zero
  generalize (parsed env c buf).out.path = path at *
  have hlocal : localPath path = dot ++ component path := localPath_exact_iff.mpr hfit.1
  rw [hlocal] at hnames hhead
  refine ⟨Or.inl ?_, fun call hm => ?_, ?_⟩
  · rw [hnames]
    by_cases hd : servesDirectory env (dot ++ component path) = true
    · rw [namesTried_eq_iff hd, getFilePath_exact_iff, getFilePath_exact_iff]
      exact hfit.2 hd
    · simp [namesTried, hd]
  · rw [hcall call hm, scriptPath_eq htarget.noNul]
    exact ⟨rfl, List.mem_of_mem_head? hhead⟩
  · rw [scriptPath_eq htarget.noNul]
    have hmax : pathMax = 4096 := rfl
    have hl : (dot ++ component path).length = (component path).length + 1 := rfl
    have hf := hfit.1
    omega

end Names

/-- For an accepted request, no name is cut if and only if the path fits behind
the `.`, and those names of index files fit that are tried. -/
theorem names_exact_iff (env : Env) (round : ℕ) (c : Client) (buf : Bytes)
    (h : (parsed env c buf).ret = 0) :
    NamesExact env round c buf (parsed env c buf).out.path ↔
      NamesFit env (parsed env c buf).out.path := ⟨NamesExact.fit, NamesFit.exact h⟩

theorem names_exact_iff_short :
    let c := { blankClient with headerLen := 19 }
    let buf := ascii "GET /a HTTP/1.0\r\n\r\n"
    (parsed emptyEnv c buf).ret = 0 ∧ (parsed emptyEnv c buf).out.path = ascii "/a" ∧
      NamesExact emptyEnv 0 c buf (parsed emptyEnv c buf).out.path := by
  intro c buf
  have h : (parsed emptyEnv c buf).ret = 0 := by decide +kernel
  have hpath : (parsed emptyEnv c buf).out.path = ascii "/a" := by decide +kernel
  refine ⟨h, hpath, (names_exact_iff emptyEnv 0 c buf h).mpr ?_⟩
  rw [hpath]
  refine ⟨by decide, fun hd => ?_⟩
  cases hd

section LongTarget

def longTarget : Bytes := slash :: List.replicate (pathMax - 2) 97

theorem longTarget_length : longTarget.length = pathMax - 1 := by
  rw [longTarget, List.length_cons, List.length_replicate]
  rfl

theorem mem_longTarget {b : Byte} (h : b ∈ longTarget) : b = slash ∨ b = 97 := by
  rcases List.mem_cons.mp h with h | h
  · exact Or.inl h
  · exact Or.inr (List.eq_of_mem_replicate h)

theorem longTarget_accepted : verdict (getRequest longTarget) = none ∧
    tokens 32 (firstLine (getRequest longTarget)) =
      [ascii "GET", longTarget, ascii "HTTP/1.0"] := by
  have hnot : ∀ b : Byte, b ≠ slash → b ≠ 97 → b ∉ longTarget :=
    fun b h h' hm => (mem_longTarget hm).elim h h'
  refine getRequest_accepted rfl ?_ ?_ ?_ ?_ ?_
  · rw [longTarget_length]
    decide
  · intro hd
    exact hnot 46 (by decide) (by decide) (hd.subset (by decide))
  · exact hnot _ (by decide) (by decide)
  · exact hnot _ (by decide) (by decide)
  · intro hc
    exact hnot 13 (by decide) (by decide) (hc.subset (by decide))

end LongTarget

/-- The last byte of a target of 4095 bytes is lost: the name that is opened is
that of another file. -/
theorem long_target_cut :
    let c := { blankClient with headerLen := (getRequest longTarget).length }
    let buf := getRequest longTarget
    (parsed emptyEnv c buf).ret = 0 ∧ (parsed emptyEnv c buf).out.path = longTarget ∧
      (resolved emptyEnv 0 c buf).events.head? = some (.fopen (dot ++ longTarget.dropLast)) ∧
      ¬ NamesExact emptyEnv 0 c buf (parsed emptyEnv c buf).out.path := by
  intro c buf
  obtain ⟨hv, htok⟩ := longTarget_accepted
  have hparse : ParsesAs _ (buf.take c.headerLen) _ _ (parsed emptyEnv c buf) :=
    parseRequest_parses _ _ _ _ _ _ _
  rw [show buf.take c.headerLen = buf from List.take_length] at hparse
  obtain ⟨hret, -, m, p, v, ht, hout⟩ := hparse.accepted hv
  rw [htok] at ht
  cases ht
  have hpath : (parsed emptyEnv c buf).out.path = longTarget := by rw [hout]
  have hcomp : component longTarget = longTarget := by
    refine (component_of_notMem fun hm => ?_).1
    exact absurd (mem_longTarget hm) (by decide)
  have hmax : pathMax = 4096 := rfl
  refine ⟨hret, hpath, ?_, fun hex => ?_⟩
  · have hhead : (resolved emptyEnv 0 c buf).events.head? = _ :=
      resolvePath_head emptyEnv 0 _ (parsed emptyEnv c buf).out .zero
    rw [hhead, hpath, localPath_eq_take, hcomp, List.dropLast_eq_take, longTarget_length]
    rfl
  · have hfit := hex.fit.1
    rw [hpath, hcomp, longTarget_length] at hfit
    omega

section TrailingSlash

variable {fs : FileSystem} {base : Env} {round : ℕ} {c : Client} {req : Request}
  {rp : ResolvedPath} {a p : Bytes} {q : Node} {st : Stat}

structure SameOutcome (r r' : ResolveResult) : Prop where
  ret : r.ret = r'.ret
  client : r.client = r'.client
  rp : r.rp = r'.rp

theorem SameOutcome.symm {r r' : ResolveResult} (h : SameOutcome r r') : SameOutcome r' r :=
  ⟨h.ret.symm, h.client.symm, h.rp.symm⟩

theorem SameOutcome.trans {r r' r'' : ResolveResult} (h : SameOutcome r r')
    (h' : SameOutcome r' r'') : SameOutcome r r'' :=
  ⟨h.ret.trans h'.ret, h.client.trans h'.client, h.rp.trans h'.rp⟩

theorem pathIncludesCgi_iff (p : Bytes) : pathIncludesCgi p = true ↔ cgiBin <+: p := by
  refine ⟨pathIncludesCgi_begins, ?_⟩
  rintro ⟨t, rfl⟩
  rfl

theorem pathIncludesCgi_slash (ha : a ≠ ascii "/cgi-bin") :
    pathIncludesCgi (dot ++ (a ++ [slash])) = pathIncludesCgi (dot ++ a) := by
  have hcgi : cgiBin = ascii "./cgi-bin" ++ [slash] := rfl
  rw [Bool.eq_iff_iff, pathIncludesCgi_iff, pathIncludesCgi_iff, ← List.append_assoc,
    List.prefix_concat_iff, hcgi, List.append_cancel_right_eq]
  refine or_iff_right fun he => ha ?_
  exact List.append_cancel_left (show dot ++ ascii "/cgi-bin" = dot ++ a from he).symm

theorem indexName_slash (ha : (dot ++ a).getLast? ≠ some slash) (index : Bytes) :
    indexName (a ++ [slash]) index = indexName a index := by
  have hl : (dot ++ (a ++ [slash])).getLast? = some slash := by
    rw [← List.append_assoc, List.getLast?_concat]
  rw [indexName, indexName, if_neg ha, if_pos hl, List.append_nil, List.append_assoc dot a]

theorem getFilePath_trailing (ha : (dot ++ a).getLast? ≠ some slash) (index : Bytes) :
    getFilePath (getLastChar (dot ++ (a ++ [slash]))) (dot ++ (a ++ [slash])) index =
      getFilePath (getLastChar (dot ++ a)) (dot ++ a) index := by
  rw [getFilePath_eq_take, getFilePath_eq_take, indexName_slash ha]

theorem resolvePath_opened (ho : fs.fopen (localPath req.path) = .ok q) (hs : fs.stat q = some st) :
    SameOutcome (resolvePath (fs.env base) round c req rp)
      (resolveOpened (fs.env base) round c
        { storeQuery rp req.path with filePtr := some ⟨round, c.fd, .target, q⟩ }
        (localPath req.path) ⟨round, c.fd, .target, q⟩ st) := by
  have ho' : (fs.env base).fopen .target (localPath req.path) = .ok q := ho
  have hs' : (fs.env base).fstat .target q = some st := hs
  simp only [resolvePath, ho', hs']
  exact ⟨rfl, rfl, rfl⟩

theorem resolvePath_plain (hq : 63 ∉ p) (hlen : p.length ≤ pathMax - 2)
    (ho : fs.fopen (dot ++ p) = .ok q) (hs : fs.stat q = some st) :
    SameOutcome (resolvePath (fs.env base) round c { req with path := p } rp)
      (resolveOpened (fs.env base) round c { rp with filePtr := some ⟨round, c.fd, .target, q⟩ }
        (dot ++ p) ⟨round, c.fd, .target, q⟩ st) := by
  obtain ⟨hcomp, hquery⟩ := component_of_notMem hq
  have hlocal : localPath p = dot ++ p := by rw [localPath_short hlen, hcomp]
  have hstore : storeQuery rp p = rp := by
    have hb : queryBuffer p = none := by
      rw [queryBuffer, pathBuffer_short hlen, strtok_component, hquery]
      rfl
    rw [storeQuery, hb]
  have hopened : SameOutcome (resolvePath (fs.env base) round c { req with path := p } rp) _ :=
    resolvePath_opened (by rw [hlocal]; exact ho) hs
  rw [hlocal, hstore] at hopened
  exact hopened

theorem FileSystem.fopen_stat (h : fs.fopen p = .ok q) : ∃ st, fs.stat q = some st := by
  obtain ⟨st, hst⟩ := fs.tree.resolve_node (FileSystem.fopen_ok.mp h).1
  exact ⟨st, by rw [FileSystem.stat, hst]; rfl⟩

theorem handleDirIndex_outcome {h : Handle} (hs : fs.stat h.node = some st) (t t' : PathType) :
    SameOutcome (handleDirIndex (fs.env base) c { rp with pathType := t } h)
      (handleDirIndex (fs.env base) c { rp with pathType := t' } h) := by
  have hs' : (fs.env base).fstat h.site h.node = some st := hs
  simp only [handleDirIndex, hs']
  exact ⟨rfl, rfl, rfl⟩

/-- For a directory, the kind that the pathname suggested is forgotten. -/
theorem resolveDirectory_outcome {p' : Bytes} {h : Handle} {t t' : PathType}
    (hi : ∀ index, getFilePath (getLastChar p) p index = getFilePath (getLastChar p') p' index) :
    SameOutcome (resolveDirectory (fs.env base) round c { rp with pathType := t } p h st)
      (resolveDirectory (fs.env base) round c { rp with pathType := t' } p' h st) := by
  simp only [resolveDirectory, hi]
  cases hx : (fs.env base).fopen .index (getFilePath (getLastChar p') p' dirIndex) with
  | ok n =>
    obtain ⟨st', hst⟩ := FileSystem.fopen_stat hx
    have ho : SameOutcome
        (handleDirIndex (fs.env base) c { rp with pathType := t } ⟨round, c.fd, .index, n⟩) _ :=
      handleDirIndex_outcome hst t t'
    exact ⟨ho.ret, ho.client, ho.rp⟩
  | error e =>
    cases hy : (fs.env base).fopen .index2 (getFilePath (getLastChar p') p' dirIndex2) with
    | ok n =>
      obtain ⟨st', hst⟩ := FileSystem.fopen_stat hy
      have ho : SameOutcome
          (handleDirIndex (fs.env base) c { rp with pathType := t } ⟨round, c.fd, .index2, n⟩) _ :=
        handleDirIndex_outcome hst t t'
      exact ⟨ho.ret, ho.client, ho.rp⟩
    | error e => exact ⟨rfl, rfl, rfl⟩

theorem resolveDirectory_ok {h : Handle} {path : Bytes} :
    (resolveDirectory (fs.env base) round c rp path h st).ret = 0 ∧
      (resolveDirectory (fs.env base) round c rp path h st).client.respVal = c.respVal ∧
      (resolveDirectory (fs.env base) round c rp path h st).rp.pathType ≠ .isCgi := by
  simp only [resolveDirectory]
  cases hx : (fs.env base).fopen .index (getFilePath (getLastChar path) path dirIndex) with
  | ok n =>
    obtain ⟨st', hst⟩ := FileSystem.fopen_stat hx
    have hst' : (fs.env base).fstat .index n = some st' := hst
    simp [handleDirIndex, hst']
  | error e =>
    cases hy : (fs.env base).fopen .index2 (getFilePath (getLastChar path) path dirIndex2) with
    | ok n =>
      obtain ⟨st', hst⟩ := FileSystem.fopen_stat hy
      have hst' : (fs.env base).fstat .index2 n = some st' := hst
      simp [handleDirIndex, hst']
    | error e => simp

theorem resolveOpened_outcome {p' : Bytes} {h : Handle} (hd : st.isDir = true)
    (hi : ∀ index, getFilePath (getLastChar p) p index = getFilePath (getLastChar p') p' index)
    (hc : pathIncludesCgi p = pathIncludesCgi p' ∨ base.flags.c = true) :
    SameOutcome (resolveOpened (fs.env base) round c rp p h st)
      (resolveOpened (fs.env base) round c rp p' h st) := by
  have hflag : (fs.env base).flags.c = base.flags.c := rfl
  by_cases hr : pathIncludesCgi p = true ∧ base.flags.c = false
  · have hr' : pathIncludesCgi p' = true ∧ base.flags.c = false := by
      rcases hc with hc | hc
      · exact hc ▸ hr
      · exact absurd (hr.2.symm.trans hc) (by decide)
    simp only [resolveOpened, hflag, hr, hr', and_self, if_true]
    exact ⟨rfl, rfl, rfl⟩
  · have hr' : ¬ (pathIncludesCgi p' = true ∧ base.flags.c = false) := by
      rcases hc with hc | hc
      · exact hc ▸ hr
      · simp [hc]
    simp only [resolveOpened, hflag, hr, hr', if_false, hd, if_true]
    exact resolveDirectory_outcome hi

end TrailingSlash

/-- A directory is resolved alike with and without a trailing `/`, except that
without the flag for CGI programs `/cgi-bin/` is refused and `/cgi-bin` is not. -/
theorem trailing_slash_outcome (fs : FileSystem) (base : Env) (round : ℕ) (c : Client)
    (req : Request) (rp : ResolvedPath) (a : Bytes) (q : Node) (st : Stat) (hq : 63 ∉ a)
    (hend : a.getLast? ≠ some slash)
    (hfit : (dot ++ a ++ slash :: dirIndex2).length ≤ pathMax - 1)
    (ho : fs.fopen (dot ++ a) = .ok q) (hs : fs.stat q = some st) (hd : st.isDir = true) :
    let r := resolvePath (fs.env base) round c { req with path := a } rp
    let r' := resolvePath (fs.env base) round c { req with path := a ++ [slash] } rp
    (¬ (a = ascii "/cgi-bin" ∧ base.flags.c = false) → SameOutcome r r') ∧
      (a = ascii "/cgi-bin" ∧ base.flags.c = false →
        r.ret = 0 ∧ r.client.respVal = c.respVal ∧ r.rp.pathType ≠ .isCgi ∧
        r'.ret = -1 ∧ r'.client.respVal = .resp501) := by
  intro r r'
  have hmax : pathMax = 4096 := rfl
  have hindex : dirIndex2.length = 10 := rfl
  have hdot : dot.length = 1 := rfl
  simp only [List.length_append, List.length_cons, hindex, hdot] at hfit
  have hlast : (dot ++ a).getLast? ≠ some slash := by
    rw [List.getLast?_append]
    cases hl : a.getLast? with
    | none => decide
    | some b =>
      rw [hl] at hend
      exact hend
  have ho' : fs.fopen (dot ++ (a ++ [slash])) = .ok q := by
    obtain ⟨hres, hread⟩ := FileSystem.fopen_ok.mp ho
    rw [← List.append_assoc]
    exact FileSystem.fopen_ok.mpr
      ⟨fs.tree.resolve_trailing_slash hres ⟨st, FileSystem.stat_ok hs, hd⟩, hread⟩
  have hq' : 63 ∉ a ++ [slash] := by
    rw [List.mem_append, not_or]
    exact ⟨hq, by decide⟩
  have hlen : a.length ≤ pathMax - 2 := by omega
  have hlen' : (a ++ [slash]).length ≤ pathMax - 2 := by
    rw [List.length_append, List.length_singleton]
    omega
  have h1 : SameOutcome r _ := resolvePath_plain hq hlen ho hs
  have h2 : SameOutcome r' _ := resolvePath_plain hq' hlen' ho' hs
  constructor
  · intro hplain
    have hc : pathIncludesCgi (dot ++ a) = pathIncludesCgi (dot ++ (a ++ [slash])) ∨
        base.flags.c = true := by
      by_cases ha : a = ascii "/cgi-bin"
      · exact Or.inr (by simpa using fun hf => hplain ⟨ha, hf⟩)
      · exact Or.inl (pathIncludesCgi_slash ha).symm
    refine (h1.trans (resolveOpened_outcome hd (fun index => ?_) hc)).trans h2.symm
    exact (getFilePath_trailing hlast index).symm
  · rintro ⟨rfl, hf⟩
    have hflag : (fs.env base).flags.c = false := hf
    have hplain : pathIncludesCgi (dot ++ ascii "/cgi-bin") = false := by decide
    have hcgi : pathIncludesCgi (dot ++ (ascii "/cgi-bin" ++ [slash])) = true := by decide
    rw [h1.ret, h1.client, h1.rp, h2.ret, h2.client]
    simp only [resolveOpened, hplain, hcgi, hflag, hd, Bool.false_eq_true, false_and, if_false,
      and_self, if_true]
    exact ⟨resolveDirectory_ok.1, resolveDirectory_ok.2.1, resolveDirectory_ok.2.2, trivial⟩

theorem trailing_slash_outcome_nested :
    let fs := onlyTarget (ascii "/a")
    let r := resolvePath (fs.env emptyEnv) 0 blankClient { Request.zero with path := ascii "/a" }
    let r' := resolvePath (fs.env emptyEnv) 0 blankClient { Request.zero with path := ascii "/a/" }
    SameOutcome (r .zero) (r' .zero) ∧ (r .zero).rp.pathType = .isDir := by
  intro fs r r'
  refine ⟨?_, by decide +kernel⟩
  exact (trailing_slash_outcome fs emptyEnv 0 blankClient .zero .zero (ascii "/a")
    (deepCwd ++ [ascii "a"]) ⟨true, 0, 0⟩ (by decide) (by decide) (by decide) (by decide +kernel)
    (by decide +kernel) rfl).1 (by decide)

theorem cgi_bin_slash_differs :
    let fs := onlyTarget (ascii "/cgi-bin")
    let r := resolvePath (fs.env emptyEnv) 0 blankClient
      { Request.zero with path := ascii "/cgi-bin" } .zero
    let r' := resolvePath (fs.env emptyEnv) 0 blankClient
      { Request.zero with path := ascii "/cgi-bin/" } .zero
    fs.fopen (ascii "./cgi-bin") = .ok (deepCwd ++ [ascii "cgi-bin"]) ∧
      fs.stat (deepCwd ++ [ascii "cgi-bin"]) = some ⟨true, 0, 0⟩ ∧
      r.ret = 0 ∧ r.rp.pathType = .isDir ∧ r'.ret = -1 ∧ r'.client.respVal = .resp501 ∧
      ¬ SameOutcome r r' := by
  intro fs r r'
  have hret : r.ret = 0 ∧ r'.ret = -1 := by decide +kernel
  refine ⟨by decide +kernel, by decide +kernel, hret.1, by decide +kernel, hret.2,
    by decide +kernel, fun h => ?_⟩
  have hsame := h.ret
  rw [hret.1, hret.2] at hsame
  cases hsame

end SimpleServer
