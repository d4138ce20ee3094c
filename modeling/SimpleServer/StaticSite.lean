import SimpleServer.Messages
import SimpleServer.Refinement
import SimpleServer.RequestLine
import SimpleServer.ListingRoundTrip

/-!
# The site as its visitors see it

Over a file system that does not change, what a peer is sent for a target
outside `cgi-bin` is a matter of the tree alone: the file that the target
leads to, the index file of the directory, or the page for what is missing or
cannot be read. The type of a file is a matter of its own name. No slot, round,
chunk or other client comes into it.
-/

namespace SimpleServer

open CString FileTree Pathname SlotArray HttpMessage

def nameType (name : Name) : Option Bytes :=
  (strrchr name 46).bind fun ext => (mimeTable.find? fun e => strcasecmp ext e.1).map Prod.snd

section Types

variable {dir name ext : Bytes} {magic : Option Bytes}

theorem strrchr_behind (h : 46 ∈ name) (dir : Bytes) : strrchr (dir ++ name) 46 = strrchr name 46 := by
  have hstop : (name.reverse.takeWhile (· != 46)).length ≠ name.reverse.length := by
    intro he
    have hself := (List.takeWhile_prefix (· != 46)).eq_of_length he
    have hall := List.takeWhile_eq_self_iff.mp hself 46 (List.mem_reverse.mpr h)
    simp at hall
  rw [strrchr, strrchr, if_pos (List.mem_append_right _ h), if_pos h, List.reverse_append,
    List.takeWhile_append, if_neg hstop]

theorem strrchr_before (h : 46 ∉ name) (hext : strrchr (dir ++ slash :: name) 46 = some ext) :
    slash ∈ ext := by
  have hpass : ∀ b ∈ name.reverse ++ [slash], (b != 46) = true := by
    intro b hb
    rcases List.mem_append.mp hb with hb | hb
    · have hne : b ≠ 46 := fun he => h (he ▸ List.mem_reverse.mp hb)
      simpa using hne
    · rw [List.mem_singleton.mp hb]
      decide
  have hsplit : (dir ++ slash :: name).reverse = (name.reverse ++ [slash]) ++ dir.reverse := by simp
  rw [strrchr] at hext
  split_ifs at hext
  cases hext
  rw [hsplit, List.takeWhile_append_of_pos hpass]
  simp

theorem strcasecmp_slash (h : slash ∈ ext) : mimeTable.find? (fun e => strcasecmp ext e.1) = none := by
  have hkeys : ∀ e ∈ mimeTable, slash ∉ e.1.map toLower := by decide +kernel
  rw [List.find?_eq_none]
  intro e he hcase
  rw [strcasecmp, beq_iff_eq] at hcase
  have hmem : toLower slash ∈ ext.map toLower := List.mem_map_of_mem h
  rw [hcase] at hmem
  exact hkeys e he hmem

theorem getMimeTypeByExt_name (dir : Bytes) :
    getMimeTypeByExt magic (dir ++ slash :: name) = (nameType name).or magic := by
  by_cases h : 46 ∈ name
  · have hdot := strrchr_behind h (dir ++ [slash])
    rw [List.append_assoc, List.singleton_append] at hdot
    rw [getMimeTypeByExt, nameType, hdot, strrchr, if_pos h]
    simp only [Option.bind_some]
    cases mimeTable.find? _ <;> rfl
  · have hnone : nameType name = none := by
      rw [nameType, strrchr, if_neg h]
      rfl
    rw [hnone, getMimeTypeByExt]
    split
    · rfl
    · rename_i ext hext
      rw [strcasecmp_slash (strrchr_before h hext)]
      rfl

end Types

inductive Page where
  | failure (code : ClientResponse)
  | file (q : Node)
  | other
  deriving DecidableEq, Repr

namespace FileSystem

variable (fs : FileSystem)

def child (q : Node) (n : Name) : Option Node :=
  match fs.tree.node (q ++ [n]) with
  | .ok _ => if fs.readable (q ++ [n]) then some (q ++ [n]) else none
  | .error _ => none

/-- What is shown for a node: a file itself, for a directory its index file. -/
def shown (q : Node) : Page :=
  if (fs.stat q).any Stat.isDir then
    match (fs.child q dirIndex).or (fs.child q dirIndex2) with
    | some i => .file i
    | none => .other
  else .file q

def page (target : Bytes) : Page :=
  if cgiBin <+: dot ++ component target then .other
  else match fs.fopen (dot ++ component target) with
    | .ok q => fs.shown q
    | .error e => .failure (if e = .EACCES then .resp403 else .resp404)

end FileSystem

/-- The outside answers for this file system. -/
def Serves (fs : FileSystem) (env : Env) : Prop := env = fs.env env

/-- `resolve_path` has settled on this file, to be announced by its own name. -/
structure FindsFile (fs : FileSystem) (r : ResolveResult) (i : Node) : Prop where
  ret : r.ret = 0
  kind : r.rp.pathType = .isFile
  node : r.rp.filePtr.map Handle.node = some i
  stat : ∃ st, fs.stat i = some st ∧ r.rp.fileSize = st.size ∧ r.rp.lastMod = st.mtime
  mime : ∃ magic, r.rp.mimeType = (i.getLast?.bind nameType).or magic

section Resolving

variable {fs : FileSystem} {env : Env} {round : ℕ} {c : Client} {rp : ResolvedPath} {a : Bytes}
  {q : Node} {st : Stat}

theorem fopen_stat {path : Bytes} (h : fs.fopen path = .ok q) : ∃ st, fs.stat q = some st := by
  obtain ⟨st, hst⟩ := fs.tree.resolve_node (FileSystem.fopen_ok.mp h).1
  exact ⟨st, by rw [FileSystem.stat, hst]; rfl⟩

theorem fopen_index (h : fs.fopen (dot ++ a) = .ok q) (hs : fs.stat q = some st)
    (hd : st.isDir = true) {index : Name} (hi : index = dirIndex ∨ index = dirIndex2) :
    (fs.fopen (indexName a index)).toOption = fs.child q index := by
  have hproper : slash ∉ index ∧ ¬ Stays index ∧ index ≠ dotdot := by
    rcases hi with rfl | rfl <;> decide
  have hdir : fs.tree.IsDirectory q := ⟨st, FileSystem.stat_ok hs, hd⟩
  have hres := (FileSystem.fopen_ok.mp h).1
  have hstep : fs.tree.resolve (indexName a index) = fs.tree.step q index := by
    by_cases hl : (dot ++ a).getLast? = some slash
    · obtain ⟨l, hl'⟩ := List.getLast?_eq_some_iff.mp hl
      rw [indexName, if_pos hl, List.append_nil]
      rw [hl'] at hres ⊢
      rw [List.append_assoc]
      exact Tree.resolve_fill hres hproper.1
    · rw [indexName, if_neg hl, List.append_assoc]
      exact fs.tree.resolve_append hres hproper.1
  rw [FileSystem.fopen, hstep, Tree.step_name hdir hproper.2.1 hproper.2.2, FileSystem.child]
  cases fs.tree.node (q ++ [index]) with
  | error e => rfl
  | ok i =>
    simp only [Except.map]
    split <;> rfl

theorem handleDirIndex_finds (hserves : Serves fs env) {h : Handle} {index : Name}
    (hi : index = dirIndex ∨ index = dirIndex2) (hc : fs.child q index = some h.node) :
    FindsFile fs (handleDirIndex env c rp h) h.node := by
  have hstat : ∀ site i, env.fstat site i = fs.stat i := by
    rw [hserves]
    intros
    rfl
  have htype : nameType index = some (ascii "text/html") := by
    rcases hi with rfl | rfl <;> decide +kernel
  simp only [FileSystem.child] at hc
  split at hc
  · rename_i st hst
    split_ifs at hc
    rw [Option.some.injEq] at hc
    have hs : fs.stat h.node = some st := by
      rw [← hc, FileSystem.stat, hst]
      rfl
    simp only [handleDirIndex, hstat, hs]
    refine ⟨rfl, rfl, rfl, ⟨st, hs, rfl, rfl⟩, none, ?_⟩
    rw [← hc, List.getLast?_concat, Option.bind_some, htype]
    rfl
  · cases hc

theorem FindsFile.events {r : ResolveResult} (h : FindsFile fs r q) (events : List Event) :
    FindsFile fs { r with events := events } q := ⟨h.ret, h.kind, h.node, h.stat, h.mime⟩

/-- The room that the longest name tried takes in its buffer. -/
def SiteFits (target : Bytes) : Prop := (component target).length ≤ pathMax - 13

theorem getFilePath_index (hlen : a.length ≤ pathMax - 13) {index : Bytes}
    (hindex : index.length ≤ 10) :
    getFilePath (getLastChar (dot ++ a)) (dot ++ a) index = indexName a index := by
  rw [getFilePath_exact_iff, indexName]
  have hmax : pathMax = 4096 := rfl
  have hdot : dot.length = 1 := rfl
  have hslash : (if (dot ++ a).getLast? = some slash then [] else [slash]).length ≤ 1 := by
    split_ifs <;> simp
  simp only [List.length_append]
  omega

theorem resolveDirectory_shown (hserves : Serves fs env) (hlen : a.length ≤ pathMax - 13)
    (h : fs.fopen (dot ++ a) = .ok q) (hs : fs.stat q = some st) (hd : st.isDir = true)
    {i : Node} (hi : fs.shown q = .file i) (dirFp : Handle) :
    FindsFile fs (resolveDirectory env round c rp (dot ++ a) dirFp st) i := by
  have hopen : ∀ site p, env.fopen site p = fs.fopen p := by
    rw [hserves]
    intros
    rfl
  have hindex := fopen_index h hs hd (Or.inl rfl)
  have hindex2 := fopen_index h hs hd (Or.inr rfl)
  simp only [FileSystem.shown, hs, Option.any_some, hd, if_true] at hi
  simp only [resolveDirectory, getFilePath_index hlen (show dirIndex.length ≤ 10 by decide),
    getFilePath_index hlen (show dirIndex2.length ≤ 10 by decide), hopen]
  cases hx : fs.fopen (indexName a dirIndex) with
  | ok node =>
    rw [hx] at hindex
    rw [← hindex] at hi
    cases hi
    exact (handleDirIndex_finds (h := ⟨round, c.fd, .index, i⟩) hserves (Or.inl rfl)
      hindex.symm).events _
  | error e =>
    rw [hx] at hindex
    cases hy : fs.fopen (indexName a dirIndex2) with
    | ok node =>
      rw [hy] at hindex2
      rw [← hindex, ← hindex2] at hi
      cases hi
      exact (handleDirIndex_finds (h := ⟨round, c.fd, .index2, i⟩) hserves (Or.inr rfl)
        hindex2.symm).events _
    | error e' =>
      rw [hy] at hindex2
      rw [← hindex, ← hindex2] at hi
      cases hi

theorem split_last_segment {p : Bytes} (h : slash ∈ p) :
    ∃ dir, p = dir ++ slash :: (segments p).getLast (segments_ne_nil p) := by
  obtain ⟨u, v, huv, hu⟩ := List.eq_append_cons_of_mem (List.mem_reverse.mpr h)
  have hp : p = v.reverse ++ slash :: u.reverse := by
    have hrev := congrArg List.reverse huv
    simpa using hrev
  have hlast : segments u.reverse = [u.reverse] := segments_of_notMem (by simpa using hu)
  have hseg : segments p = segments v.reverse ++ [u.reverse] := by
    rw [hp, segments_append_slash, hlast]
  refine ⟨v.reverse, ?_⟩
  simp only [hseg, List.getLast_append_singleton]
  exact hp

theorem localPath_fits {target : Bytes} (h : SiteFits target) :
    localPath target = dot ++ component target := by
  have hmax : pathMax = 4096 := rfl
  exact localPath_exact_iff.mpr (h.trans (by omega))

theorem file_mime (h : fs.fopen (dot ++ slash :: a) = .ok q) (hs : fs.stat q = some st)
    (hd : st.isDir = false) (magic : Option Bytes) :
    getMimeTypeByExt magic (dot ++ slash :: a) = (q.getLast?.bind nameType).or magic := by
  obtain ⟨hres, -⟩ := FileSystem.fopen_ok.mp h
  have hlast := Tree.resolve_file_last hres (FileSystem.stat_ok hs) hd
  have hslash : slash ∈ dot ++ slash :: a := List.mem_append_right _ List.mem_cons_self
  obtain ⟨dir, hdir⟩ := split_last_segment hslash
  rw [hlast, Option.bind_some, ← getMimeTypeByExt_name dir, ← hdir]

theorem resolvePath_page (hserves : Serves fs env) {req : Request} (htarget : Target req.path)
    (hlen : SiteFits req.path) :
    (∀ code, fs.page req.path = .failure code →
      (resolvePath env round c req rp).ret = -1 ∧
        (resolvePath env round c req rp).client.respVal = code) ∧
    ∀ i, fs.page req.path = .file i → FindsFile fs (resolvePath env round c req rp) i := by
  have hopen : ∀ site p, env.fopen site p = fs.fopen p := by
    rw [hserves]
    intros
    rfl
  have hstat : ∀ site i, env.fstat site i = fs.stat i := by
    rw [hserves]
    intros
    rfl
  simp only [FileSystem.page]
  by_cases hcgi : cgiBin <+: dot ++ component req.path
  · simp [hcgi]
  have hplain : pathIncludesCgi (dot ++ component req.path) = false := by
    rw [← Bool.not_eq_true, pathIncludesCgi_iff]
    exact hcgi
  simp only [hcgi, if_false, resolvePath, localPath_fits hlen, hopen, hstat]
  cases ho : fs.fopen (dot ++ component req.path) with
  | error e => simp
  | ok q =>
    obtain ⟨st, hs⟩ := fopen_stat ho
    simp only [hs, resolveOpened, hplain, Bool.false_eq_true, false_and, if_false]
    constructor
    · intro code hcode
      simp only [FileSystem.shown] at hcode
      repeat' split at hcode
      all_goals cases hcode
    · intro i hi
      by_cases hd : st.isDir = true
      · simp only [hd, if_true]
        exact (resolveDirectory_shown hserves hlen ho hs hd hi _).events _
      · rw [Bool.not_eq_true] at hd
        simp only [FileSystem.shown, hs, Option.any_some, hd, Bool.false_eq_true, if_false] at hi ⊢
        cases hi
        obtain ⟨rest, hrest⟩ : ∃ rest, component req.path = slash :: rest := by
          obtain ⟨rest, hr⟩ := htarget.rooted
          rw [hr]
          exact ⟨_, rfl⟩
        refine ⟨rfl, rfl, rfl, ⟨st, hs, rfl, rfl⟩, env.magicDescriptor q, ?_⟩
        rw [hrest] at ho ⊢
        exact file_mime ho hs hd _

end Resolving

/-- What a peer that asked with the method `m` for this page reads. -/
def Page.Read (fs : FileSystem) (m sent : Bytes) : Page → Prop
  | .failure code => ∃ head : Head, head.code = respValToStatusString code ∧
      HttpMessage.read sent = some (head.message
        (if m = ascii "GET" then (errorResponses code).body else []))
  | .file i => ∃ (head : Head) (st : Stat), fs.stat i = some st ∧ head.code = ascii "200" ∧
      head.len = st.size ∧ (∀ t, i.getLast?.bind nameType = some t → head.mime = t) ∧
      HttpMessage.read sent = some (head.message
        (if m = ascii "GET" then fs.contents i else []))
  | .other => True

section Answers

variable {fs : FileSystem} {env : Env} {round : ℕ} {c : Client} {buf out m p v : Bytes} {i : Node}

theorem sentBody_method {req : Request}
    (h : req.method = if m = ascii "GET" then .get else .head) (body : Bytes) :
    sentBody req body = if m = ascii "GET" then body else [] := by
  rw [sentBody, h]
  split_ifs <;> simp_all

theorem read_staged {header body : Bytes} {head : Head} (h : IsHead header head)
    (ho : out = header ++ body) : HttpMessage.read out = some (head.message body) := by
  rw [ho, h.2 body]
  exact read_write (h.1.message body)

theorem fileDelivery_finds (hserves : Serves fs env) (hw : Working env) {r : ResolveResult}
    {req : Request} (h : FindsFile fs r i) :
    ∃ header, fileDelivery env r.rp req = some (header, fs.contents i) := by
  have hread : ∀ i, env.fread i = fs.contents i := by
    rw [hserves]
    intro
    rfl
  have hbody : (r.rp.filePtr.map fun h => env.fread h.node) = some (fs.contents i) := by
    have hmap := congrArg (Option.map env.fread) h.node
    rw [Option.map_map, Option.map_some, hread] at hmap
    exact hmap
  obtain ⟨modTime, ht⟩ := Option.isSome_iff_exists.mp (hw.time r.rp.lastMod)
  simp only [fileDelivery, ht, hw.out, if_true, hbody, Option.getD_some]
  exact ⟨_, rfl⟩

theorem not_fromScript {kind : PathType} (hkind : (resolved env round c buf).rp.pathType = kind)
    (hne : kind ≠ .isCgi) : ¬ FromScript env round c buf := by
  intro hs
  exact hne (hkind.symm.trans hs.2.2.1)

theorem respond_sent (hfit : OutputFits env) (hc : c.outBuf = none)
    (hscript : ¬ FromScript env round c buf)
    (ho : (respond env round c buf).client.outBuf = some out) :
    out = (response env round c buf).1 ++
      sentBody (parsed env c buf).out (response env round c buf).2 := by
  rw [respond_outBuf hfit hc, if_neg hscript] at ho
  by_cases hret : (built env round c buf).ret = 0
  · rw [if_pos hret, Option.some.injEq] at ho
    exact ho.symm
  · rw [if_neg hret] at ho
    cases ho

theorem respond_failure (he : PlainEnv env) (hc : c.outBuf = none)
    (hm : (parsed env c buf).out.method = if m = ascii "GET" then .get else .head)
    (hscript : ¬ FromScript env round c buf) {code : ClientResponse} (herror : code.isError = true)
    (hresponse : response env round c buf = errorDelivery (parsed env c buf).out code)
    (ho : (respond env round c buf).client.outBuf = some out) :
    (Page.failure code).Read fs m out := by
  have hsent := respond_sent he.output hc hscript ho
  rw [hresponse, sentBody_method hm] at hsent
  obtain ⟨head, hhead, hstatus, -⟩ := errorDelivery_isHead (parsed_time_oneLine he) herror
  exact ⟨head, hstatus, read_staged hhead hsent⟩

theorem respond_page (hserves : Serves fs env) (hw : Working env) (he : PlainEnv env)
    (hc : c.outBuf = none) (hp : (parsed env c buf).ret = 0)
    (hm : (parsed env c buf).out.method = if m = ascii "GET" then .get else .head)
    (hfit : SiteFits (parsed env c buf).out.path)
    (ho : (respond env round c buf).client.outBuf = some out) :
    (fs.page (parsed env c buf).out.path).Read fs m out := by
  obtain ⟨hfail, hfile⟩ : (∀ code, fs.page (parsed env c buf).out.path = .failure code →
      (resolved env round c buf).ret = -1 ∧
        (resolved env round c buf).client.respVal = code) ∧ _ :=
    resolvePath_page hserves (parsed_target hp) hfit
  have hdate : OneLine (parsed env c buf).out.timeReceived := parsed_time_oneLine he
  cases hpage : fs.page (parsed env c buf).out.path with
  | other => trivial
  | failure code =>
    obtain ⟨hret, hcode⟩ := hfail code hpage
    have hr : (resolved env round c buf).ret ≠ 0 := by
      rw [hret]
      decide
    have hv : ResolveVerdict _ (resolved env round c buf) := resolvePath_verdict env round _ _ _
    have herror : code.isError = true := hcode ▸ hv.failed hr
    have hresponse : response env round c buf = errorDelivery (parsed env c buf).out code := by
      rw [response, if_pos hp, if_neg hr, hcode]
    exact respond_failure he hc hm (fun hs => hr hs.2.1) herror hresponse ho
  | file i =>
    have hfinds : FindsFile fs (resolved env round c buf) i := hfile i hpage
    obtain ⟨st, hst, hsize, -⟩ := hfinds.stat
    obtain ⟨magic, hmime⟩ := hfinds.mime
    obtain ⟨header, hdel⟩ : ∃ header, fileDelivery env (resolved env round c buf).rp
        (parsed env c buf).out = some (header, fs.contents i) :=
      fileDelivery_finds hserves hw hfinds
    have hresponse : response env round c buf = (header, fs.contents i) := by
      rw [response, if_pos hp, if_pos hfinds.ret, delivery, hfinds.kind]
      simp only [hdel, Option.getD_some]
    have hsent := respond_sent he.output hc (not_fromScript hfinds.kind (by decide)) ho
    rw [hresponse, sentBody_method hm] at hsent
    obtain ⟨modTime, hhead⟩ :=
      fileDelivery_isHead he hdate (resolvePath_mime_oneLine he) hdel
    refine ⟨_, st, hst, rfl, hsize, fun t ht => ?_, read_staged hhead hsent⟩
    change (resolved env round c buf).rp.mimeType.getD _ = t
    rw [hmime, ht]
    rfl

end Answers

/-- The method and the target of a request that is accepted. -/
def askedFor (got : Bytes) : Option (Bytes × Bytes) :=
  match strnstr got headerEnd got.length with
  | none => none
  | some k =>
    if verdict (got.take (k + 4)) = none then
      match tokens 32 (firstLine (got.take (k + 4))) with
      | [m, p, _] => some (m, p)
      | _ => none
    else none

section Runs

variable {answers : List PollAnswer} {q : Processed}

theorem parsed_askedFor (hq : q.Faithful answers) {m target : Bytes}
    (h : askedFor q.buf = some (m, target)) :
    (parsed q.env q.client q.buf).ret = 0 ∧ (parsed q.env q.client q.buf).out.path = target ∧
      (parsed q.env q.client q.buf).out.method = if m = ascii "GET" then .get else .head := by
  obtain ⟨k, hk, hlen⟩ := hq.found
  simp only [askedFor, hk] at h
  split_ifs at h with hv
  rw [← hlen] at h hv
  obtain ⟨hret, -, m', p, v, ht, hout⟩ := (parsed_parses q.env q.client q.buf).accepted hv
  rw [ht] at h
  cases h
  rw [hout]
  exact ⟨hret, rfl, rfl⟩

end Runs

/-- Over a file system that stays as it is, a peer whose request is accepted
reads the page that the tree has for its target: a file with its length, its
contents and the type that its name has, or what is wrong with the target. -/
theorem static_site_served (fs : FileSystem) {pfds : ℕ → PollFd} {clients : ℕ → Client}
    {v4 v6 : Option ℕ} {s₀ s : Server} {answers : List PollAnswer}
    (h0 : setup pfds clients v4 v6 = .ok s₀) (h : eventLoop s₀ answers = .ok s)
    (hfs : ∀ r, .ready r ∈ answers → ∀ fd, Serves fs (r.env fd))
    (hw : ∀ r, .ready r ∈ answers → ∀ fd, Working (r.env fd) ∧ PlainEnv (r.env fd)) :
    ∀ x ∈ endings s.trace, x.sent ≠ [] → ∀ m target,
      askedFor x.client.received = some (m, target) → SiteFits target →
        (fs.page target).Read fs m x.sent := by
  intro x hx hne m target hasked hfit
  obtain ⟨q, -, hf, hbuf, -, hclient⟩ := ended_faithful h0 h hx hne
  obtain ⟨r, fd, hr, henv⟩ := hf.outside
  have hserves : Serves fs q.env := henv ▸ hfs r hr fd
  have hworking : Working q.env ∧ PlainEnv q.env := henv ▸ hw r hr fd
  rw [hbuf] at hasked
  obtain ⟨hp, hpath, hm⟩ := parsed_askedFor hf hasked
  rw [← hpath] at hfit ⊢
  exact respond_page hserves hworking.1 hworking.2 hf.unstaged hp hm hfit hclient

theorem workingEnv_site (fs : FileSystem) :
    Working (fs.env workingEnv) ∧ PlainEnv (fs.env workingEnv) := by
  have hnow : OneLine workingEnv.timeReceived.text := by decide
  refine ⟨⟨rfl, rfl, fun _ => rfl⟩, hnow, ?_, fun _ _ hm => (by cases hm), ?_⟩
  · intro t m hm
    cases hm
    decide
  · intro got hg
    cases hg
    decide

def oneFile : FileSystem where
  tree := listed ⟨true, 0, 0⟩ ⟨false, 2, 0⟩ rfl [[]] [[ascii "a.TXT"]] [] (by decide) (by decide)
  readable _ := true
  contents _ := ascii "hi"
  entries _ := []

def siteRounds : List PollAnswer :=
  [.ready { acceptRound [7] with env := fun _ => oneFile.env workingEnv },
    .ready (readRound (oneFile.env workingEnv)
      [.data ⟨ascii "GET //a.TXT?b=c HTTP/1.0" ++ headerEnd, by decide, by decide⟩ true]),
    .ready { writeRound [.ret 1000] with env := fun _ => oneFile.env workingEnv }]

theorem static_site_served_oneFile :
    ∃ s, eventLoop startServer siteRounds = .ok s ∧ ∃ x ∈ endings s.trace,
      askedFor x.client.received = some (ascii "GET", ascii "//a.TXT?b=c") ∧
      ∃ head : Head, head.len = 2 ∧ head.mime = ascii "text/plain; charset=utf-8" ∧
        HttpMessage.read x.sent = some (head.message (ascii "hi")) := by
  have henv : ∀ r, .ready r ∈ siteRounds → ∀ fd, r.env fd = oneFile.env workingEnv := by
    intro r hr fd
    simp only [siteRounds, List.mem_cons, List.not_mem_nil, or_false, PollAnswer.ready.injEq] at hr
    rcases hr with rfl | rfl | rfl <;> rfl
  have hfits : SiteFits (ascii "//a.TXT?b=c") := by
    change (component (ascii "//a.TXT?b=c")).length ≤ pathMax - 13
    decide +kernel
  have hpage : oneFile.page (ascii "//a.TXT?b=c") = .file [ascii "a.TXT"] := by decide +kernel
  have htype : nameType (ascii "a.TXT") = some (ascii "text/plain; charset=utf-8") := by
    decide +kernel
  obtain ⟨s, hs, ht⟩ := Run.arrives_iff.mp (show Run.arrives
    (fun s => (endings s.trace).any fun x => decide (x.sent ≠ [] ∧
      askedFor x.client.received = some (ascii "GET", ascii "//a.TXT?b=c")))
    (eventLoop startServer siteRounds) = true by decide +kernel)
  obtain ⟨x, hx, hw⟩ := List.any_eq_true.mp ht
  obtain ⟨hne, hasked⟩ := of_decide_eq_true hw
  have hread := static_site_served oneFile setup_startServer hs
    (fun r hr fd => henv r hr fd ▸ rfl)
    (fun r hr fd => by rw [henv r hr fd]; exact workingEnv_site oneFile) x hx hne _ _ hasked hfits
  rw [hpage] at hread
  obtain ⟨head, st, hst, -, hlen, hmime, hmsg⟩ := hread
  cases hst
  exact ⟨s, hs, x, hx, hasked, head, hlen, hmime _ htype, hmsg⟩

end SimpleServer
