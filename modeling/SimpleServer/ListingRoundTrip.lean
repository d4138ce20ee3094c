import SimpleServer.BuildLedger
import SimpleServer.Lib.Markup
import SimpleServer.ResolvedNames

/-!
# Reading a directory listing back

A listing writes the target of the directory and the name of the entry into a
link as they are, and the parser takes a target as it is. What comes back is
decided by the bytes at which one of the readers stops: the quote and `<` on the
page, the space, CR LF and `../` in the request, and `?` in the pathname.
-/

namespace SimpleServer

open CString FileTree Pathname Markup

def visible (ds : List Dirent) : List Dirent := ds.filter fun d => d.name.head? != some 46

/-- What `readdir` returns as a name. -/
structure EntryName (n : Bytes) : Prop where
  ne : n ≠ []
  noSlash : slash ∉ n
  noNul : 0 ∉ n

def entryLink (path : Bytes) (d : Dirent) : Link := ⟨path ++ slash :: d.name, d.name⟩

def icon (d : Dirent) : Bytes := if d.isDir then dirIcon else fileIcon

def stagedBody (c : Client) : Bytes := (c.outBuf.getD []).drop c.headerLen

structure Reaches (fs : FileSystem) (base : Env) (round : ℕ) (c : Client) (buf : Bytes) (q : Node)
    (ds : List Dirent) : Prop where
  ret : (resolved (fs.env base) round c buf).ret = 0
  dir : (resolved (fs.env base) round c buf).rp.pathType = .isDir
  opened : fs.fopen (localPath (parsed (fs.env base) c buf).out.path) = .ok q
  entries : fs.entries q = ds
  exist : ∀ d ∈ visible ds, ∃ st, fs.tree.node (q ++ [d.name]) = .ok st

/-- The pathname for a target fits the buffer of `resolve_path`. -/
def FitsPathMax (target : Bytes) : Prop := (baseUrl ++ target).length < pathMax

/-- A `GET` request for `target` is accepted, and `resolve_path` opens the entry
`n` of the directory `q`. -/
def OpensEntry (fs : FileSystem) (base : Env) (round : ℕ) (q : Node) (target n : Bytes) : Prop :=
  ∀ c, c.headerLen = (getRequest target).length →
    (parsed (fs.env base) c (getRequest target)).ret = 0 ∧
    ∃ p, (resolved (fs.env base) round c (getRequest target)).events.head? = some (.fopen p) ∧
      fs.tree.resolve p = .ok (q ++ [n])

/-- The listing gives back a link for every visible entry, and the link leads
there. -/
structure RoundTrips (fs : FileSystem) (base : Env) (round : ℕ) (c : Client) (buf : Bytes)
    (q : Node) (ds : List Dirent) : Prop where
  code : (respond (fs.env base) round c buf).client.respVal = .resp200
  items : links (stagedBody (respond (fs.env base) round c buf).client) =
    some ((visible ds).map (entryLink (parsed (fs.env base) c buf).out.path))
  opened : ∀ l ∈ (visible ds).map (entryLink (parsed (fs.env base) c buf).out.path),
    FitsPathMax l.href → OpensEntry fs base round q l.href l.text

/-- The bytes are neither the end of a token or of a line nor that of a path. -/
structure PlainBytes (n : Bytes) : Prop where
  space : 32 ∉ n
  query : 63 ∉ n
  line : ¬ crlf <:+: n

structure PlainEntry (path n : Bytes) : Prop where
  quote : 34 ∉ path ∧ 34 ∉ n
  tag : 60 ∉ n
  target : FitsPathMax (path ++ slash :: n) → PlainBytes n ∧ ¬ dotdot <:+ path

section Page

variable {path rest : Bytes} {ds : List Dirent}

theorem icon_plain (d : Dirent) : PlainIcon (icon d) := by
  rw [PlainIcon, icon, ← findSub_eq_none (by decide)]
  split
  · rw [dirIcon]
    repeat rw [ascii_ofList]
    decide +kernel
  · rw [fileIcon]
    repeat rw [ascii_ofList]
    decide +kernel

theorem listItem_eq (rest : Bytes) (d : Dirent) :
    listItem rest d = writeItem (icon d) (entryLink (slash :: rest) d) := by
  have hopen : ascii " <a href=\"/" = ascii " <a " ++ (hrefStart ++ [slash]) := by decide
  have hslash : ascii "/" = [slash] := rfl
  simp only [listItem, writeItem, entryLink, icon, hopen, hslash, item, itemEnd,
    List.append_assoc, List.cons_append, List.nil_append]

theorem dirList_eq (rest : Bytes) (ds : List Dirent) :
    dirList rest ds = ((visible ds).map fun d => (icon d, entryLink (slash :: rest) d)).flatMap
      fun i => writeItem i.1 i.2 := by
  rw [List.flatMap_map]
  exact congrArg (List.flatMap · _) (funext (listItem_eq rest))

theorem links_dirBody (h : ∀ d ∈ visible ds, Readable (entryLink (slash :: rest) d)) :
    links (dirBody rest ds) = some ((visible ds).map (entryLink (slash :: rest))) := by
  by_cases hv : visible ds = []
  · have hlist : dirList rest ds = [] := by rw [dirList_eq, hv]; rfl
    rw [dirBody, hlist, hv, List.map_nil]
    decide +kernel
  · have hpos : 0 < (dirList rest ds).length := by
      obtain ⟨d, l, hd⟩ := List.exists_cons_of_ne_nil hv
      rw [dirList_eq, hd, List.map_cons, List.flatMap_cons, List.length_append, writeItem,
        List.length_append]
      exact Nat.lt_of_lt_of_le (show 0 < item.length by decide) (by omega)
    rw [dirBody, if_pos hpos, dirList_eq, List.append_assoc, links_page, List.map_map]
    · rfl
    · simpa using h
    · simpa using fun d _ => icon_plain d
    · rw [← findSub_eq_none (by decide)]
      decide +kernel
    · exact fun he => absurd (List.map_eq_nil_iff.mp he) hv
    · rw [← findSub_eq_none (by decide)]
      decide +kernel

end Page

section Requests

variable {env : Env} {round : ℕ} {c : Client} {buf t : Bytes}

theorem parsed_parses (env : Env) (c : Client) (buf : Bytes) :
    ParsesAs env.timeReceived (buf.take c.headerLen) .zero c.respVal (parsed env c buf) :=
  parseRequest_parses _ _ _ _ _ _ _

theorem parsed_verdict (h : (parsed env c buf).ret = 0) :
    verdict (buf.take c.headerLen) = none := by
  cases hv : verdict (buf.take c.headerLen) with
  | none => rfl
  | some code =>
    rw [((parsed_parses env c buf).refused code hv).1] at h
    cases h

theorem parsed_token (h : (parsed env c buf).ret = 0) :
    32 ∉ (parsed env c buf).out.path ∧ ¬ crlf <:+: (parsed env c buf).out.path := by
  constructor
  · simp only [parsed, parseRequest] at h ⊢
    split at h
    · cases h
    · rename_i hterm
      simp only [hterm, if_false]
      obtain ⟨m, p, v, -, -, -, -, hspace, -, -, -, -, -, heq⟩ := parseLine_ok h
      rw [heq]
      exact hspace
  · obtain ⟨-, -, m, p, v, ht, hout⟩ := (parsed_parses env c buf).accepted (parsed_verdict h)
    have hp : p ∈ tokens 32 (firstLine (buf.take c.headerLen)) := by
      rw [ht]
      simp
    rw [hout]
    exact fun hc => firstLine_noCrlf _ (hc.trans (infix_of_mem_tokens hp))

theorem parsed_method (env env' : Env) (h : (parsed env c buf).ret = 0) :
    (parsed env' c buf).out.method = (parsed env c buf).out.method := by
  have hv := parsed_verdict h
  obtain ⟨-, -, m, p, v, ht, hout⟩ := (parsed_parses env c buf).accepted hv
  obtain ⟨-, -, m', p', v', ht', hout'⟩ := (parsed_parses env' c buf).accepted hv
  rw [ht] at ht'
  cases ht'
  rw [hout, hout']

theorem parsed_getRequest (hc : c.headerLen = (getRequest t).length)
    (hv : verdict (getRequest t) = none)
    (ht : tokens 32 (firstLine (getRequest t)) = [ascii "GET", t, ascii "HTTP/1.0"]) :
    (parsed env c (getRequest t)).ret = 0 ∧ (parsed env c (getRequest t)).out.path = t := by
  have hparse := parsed_parses env c (getRequest t)
  rw [hc, List.take_length] at hparse
  obtain ⟨hret, -, m, p, v, hp, hout⟩ := hparse.accepted hv
  rw [ht] at hp
  cases hp
  rw [hout]
  exact ⟨hret, rfl⟩

theorem resolved_first (env : Env) (round : ℕ) (c : Client) (buf : Bytes) :
    (resolved env round c buf).events.head? =
      some (.fopen (localPath (parsed env c buf).out.path)) := by
  simp only [resolved, resolvePath]
  split
  · rfl
  · split <;> rfl

theorem localPath_whole (hlen : FitsPathMax t) (hq : 63 ∉ t) : localPath t = dot ++ t := by
  have hmax : pathMax = 4096 := rfl
  have hbase : baseUrl.length = 1 := rfl
  rw [FitsPathMax, List.length_append] at hlen
  rw [localPath_short (by omega), (component_of_notMem hq).1]

def plainName (n : Name) : Bool := decide (32 ∉ n ∧ 63 ∉ n ∧ ¬ crlf <:+: n)

theorem plainName_iff {n : Name} : plainName n = true ↔ PlainBytes n := by
  rw [plainName, decide_eq_true_iff]
  exact ⟨fun h => ⟨h.1, h.2.1, h.2.2⟩, fun h => ⟨h.space, h.query, h.line⟩⟩

theorem localPath_plain (h : (parsed env c buf).ret = 0) :
    (segments (localPath (parsed env c buf).out.path)).all plainName = true := by
  obtain ⟨hspace, hline⟩ := parsed_token h
  generalize (parsed env c buf).out.path = p at hspace hline
  have hpre := openedPart_isPrefix p
  rw [List.all_eq_true]
  intro m hm
  have hin : m <:+: localPath p := infix_of_mem_splitOn hm
  refine plainName_iff.mpr
    ⟨fun hs => ?_, fun hq => localPath_noQuery p (hin.subset hq), fun hc => ?_⟩
  · rw [localPath_eq_dot] at hin
    rcases List.mem_cons.mp (hin.subset hs) with h46 | hmem
    · exact absurd h46 (by decide)
    · exact hspace (hpre.subset hmem)
  · have hall := hc.trans hin
    rw [localPath_eq_dot] at hall
    rcases List.infix_cons_iff.mp hall with hbegin | hrest
    · exact absurd (List.cons_prefix_cons.mp hbegin).1 (by decide)
    · exact hline (hrest.trans hpre.isInfix)

end Requests

section Entries

variable {path n : Bytes} {b : Byte}

theorem notMem_entry (hb : b ≠ slash) : b ∉ path ++ slash :: n ↔ b ∉ path ∧ b ∉ n := by
  simp [hb]

theorem PlainBytes.entry (hp : PlainBytes path) (hn : PlainBytes n) :
    PlainBytes (path ++ slash :: n) := by
  refine ⟨(notMem_entry (by decide)).mpr ⟨hp.space, hn.space⟩,
    (notMem_entry (by decide)).mpr ⟨hp.query, hn.query⟩, ?_⟩
  rw [infix_append_cons (by decide), not_or]
  exact ⟨hp.line, hn.line⟩

theorem entry_noNul (ht : Target path) (hn : EntryName n) : 0 ∉ path ++ slash :: n :=
  (notMem_entry (by decide)).mpr ⟨ht.noNul, hn.noNul⟩

theorem entry_accepted (ht : Target path) (hn : EntryName n)
    (hplain : PlainBytes (path ++ slash :: n)) (hup : ¬ dotdot <:+ path)
    (hfits : FitsPathMax (path ++ slash :: n)) :
    verdict (getRequest (path ++ slash :: n)) = none ∧
      tokens 32 (firstLine (getRequest (path ++ slash :: n))) =
        [ascii "GET", path ++ slash :: n, ascii "HTTP/1.0"] := by
  have hroot : (path ++ slash :: n).head? = some slash := by
    obtain ⟨rest, rfl⟩ := ht.rooted
    rfl
  have hshort : (path ++ slash :: n).length < pathMax := by
    rw [FitsPathMax, List.length_append] at hfits
    omega
  have hclean : ¬ dotdot ++ [slash] <:+: path ++ slash :: n := by
    rw [dotdot_slash_append hn.noSlash, not_or]
    exact ⟨ht.clean, hup⟩
  exact getRequest_accepted hroot hshort hclean (entry_noNul ht hn) hplain.space hplain.line

theorem localPath_entry (hp : 63 ∉ path) (hn : 63 ∉ n) (hfits : FitsPathMax (path ++ slash :: n)) :
    localPath (path ++ slash :: n) = localPath path ++ slash :: n := by
  have hdir : FitsPathMax path := by
    rw [FitsPathMax, ← List.append_assoc, List.length_append] at hfits
    rw [FitsPathMax]
    omega
  rw [localPath_whole hfits ((notMem_entry (by decide)).mpr ⟨hp, hn⟩), localPath_whole hdir hp,
    List.append_assoc]

end Entries

section Leading

variable {fs : FileSystem} {base env : Env} {round : ℕ} {c : Client} {buf path n : Bytes} {q : Node}
  {ds : List Dirent}

theorem respond_lists (hw : Working env) (hp : (parsed env c buf).ret = 0)
    (hget : (parsed env c buf).out.method = .get) (hr : (resolved env round c buf).ret = 0)
    (ht : (resolved env round c buf).rp.pathType = .isDir)
    (ho : env.fopen .target (localPath (parsed env c buf).out.path) = .ok q)
    (hd : env.opendir ((parsed env c buf).out.path.drop 1) = .ok q) :
    (respond env round c buf).client.respVal = .resp200 ∧
      stagedBody (respond env round c buf).client =
        dirBody ((parsed env c buf).out.path.drop 1) (env.readdir q) := by
  refine ⟨(listsResolved_of_same hw hp hr ht ho hd).code, ?_⟩
  obtain ⟨m, hm⟩ := Option.isSome_iff_exists.mp (hw.time (resolved env round c buf).rp.lastMod)
  obtain ⟨header, hdel⟩ : ∃ header, delivery env (resolved env round c buf).rp
      (parsed env c buf).out = some (header, dirBody ((parsed env c buf).out.path.drop 1)
        (env.readdir q)) := by
    simp only [delivery, ht, dirDelivery, hd, hm, hw.body, hw.out, and_self, if_true]
    exact ⟨_, rfl⟩
  have hcgi : (resolved env round c buf).rp.pathType ≠ .isCgi := by
    rw [ht]
    decide
  have hsent : scriptBody (parsed env c buf).out (resolved env round c buf).rp
      (dirBody ((parsed env c buf).out.path.drop 1) (env.readdir q)) = _ :=
    (if_neg hcgi).trans (if_neg (by rw [hget]; decide))
  obtain ⟨hst, -⟩ : Stages (buildOkayResponse env round (resolved env round c buf).client
      (resolved env round c buf).rp (parsed env c buf).out) _ _ ∧ _ :=
    buildOkayResponse_delivered hdel fun h => absurd h hcgi
  rw [respond_found hp hr, stagedBody, hst.outBuf, hst.headerLen, hsent, Option.getD_some,
    List.drop_left]

theorem respond_unlisted (hp : (parsed env c buf).ret = 0)
    (hr : (resolved env round c buf).ret = 0)
    (ht : (resolved env round c buf).rp.pathType = .isDir)
    (hno : ∀ q, env.opendir ((parsed env c buf).out.path.drop 1) ≠ .ok q) :
    (respond env round c buf).client.respVal = .resp500 := by
  have hdel : delivery env (resolved env round c buf).rp (parsed env c buf).out = none := by
    simp only [delivery, ht, dirDelivery]
    split
    · rename_i q m hopen htime
      exact absurd hopen (hno q)
    · rfl
  obtain ⟨b, hcode, -, hclient⟩ := buildOkayResponse_fails round
    (resolved env round c buf).client hdel (by rw [ht]; decide)
  have hfound : (respond env round c buf).client = _ :=
    (congrArg Served.client (respond_found hp hr)).trans hclient
  rw [hfound, buildErrorResponse_respVal, hcode, failCode, ht]

theorem opens_of_plain (ht : Target path) (hbytes : PlainBytes path) (hn : EntryName n)
    (hdots : n.head? ≠ some 46) (hplain : PlainBytes n) (hup : ¬ dotdot <:+ path)
    (hfits : FitsPathMax (path ++ slash :: n)) (hopen : fs.fopen (localPath path) = .ok q)
    {st : Stat} (hst : fs.tree.node (q ++ [n]) = .ok st) :
    OpensEntry fs base round q (path ++ slash :: n) n := by
  intro c hc
  obtain ⟨hv, htok⟩ := entry_accepted ht hn (hbytes.entry hplain) hup hfits
  obtain ⟨hret, hpath⟩ : (parsed (fs.env base) c (getRequest (path ++ slash :: n))).ret = 0 ∧ _ :=
    parsed_getRequest hc hv htok
  refine ⟨hret, _, resolved_first _ _ _ _, ?_⟩
  have hstays : ¬ Stays n := by
    rintro (rfl | rfl)
    · exact hn.ne rfl
    · exact hdots rfl
  have hdd : n ≠ dotdot := by
    rintro rfl
    exact hdots rfl
  rw [hpath, localPath_entry hbytes.query hplain.query hfits,
    fs.tree.resolve_append (FileSystem.fopen_ok.mp hopen).1 hn.noSlash]
  exact fs.tree.step_child hstays hdd hst

end Leading

section Stocked

/-!
### A file system with the given entries in the target

Names with `?` are files of the target, or there is nothing of that name; only
the target can be read.
-/

variable {round : ℕ} {c : Client} {buf path n : Bytes} {ds : List Dirent}

def stocked (path : Bytes) (ds : List Dirent) : FileSystem where
  tree := shelved ⟨true, 0, 0⟩ directory_isDir noQuery deepCwd deepCwd_noQuery ⟨false, 0, 0⟩
    ((visible ds).map fun d => targetNode path ++ [d.name]) (by
      intro q hq
      obtain ⟨d, -, rfl⟩ := List.mem_map.mp hq
      rw [List.dropLast_concat]
      exact targetNode_noQuery path)
  readable q := decide (q = targetNode path)
  contents _ := []
  entries _ := ds

theorem stocked_shows (path : Bytes) (ds : List Dirent) : ShowsTarget (stocked path ds) path := by
  refine ⟨rfl, fun q hq => if_pos hq, fun q hq => ?_, fun q => decide_eq_true_iff⟩
  obtain ⟨j, hj, hd⟩ := hq
  by_contra hk
  have hnode : (stocked path ds).tree.node q = _ := if_neg hk
  rw [hnode] at hj
  split_ifs at hj
  cases hj
  cases hd

theorem stocked_entry {d : Dirent} (hd : d ∈ visible ds) :
    ∃ st, (stocked path ds).tree.node (targetNode path ++ [d.name]) = .ok st := by
  by_cases hk : (targetNode path ++ [d.name]).all noQuery = true
  · exact ⟨_, if_pos hk⟩
  · exact ⟨_, (if_neg hk).trans (if_pos (List.mem_map_of_mem hd))⟩

theorem stocked_reaches (hpath : (parsed ((stocked path ds).env workingEnv) c buf).out.path = path)
    (hfit : IndexFits path) :
    Reaches (stocked path ds) workingEnv round c buf (targetNode path) ds := by
  have hf := stocked_shows path ds
  obtain ⟨hret, hdir⟩ : (resolved ((stocked path ds).env workingEnv) round c buf).ret = 0 ∧ _ :=
    hf.lists hpath hfit
  refine ⟨hret, hdir, ?_, rfl, fun d hd => stocked_entry hd⟩
  rw [hpath]
  exact hf.fopen

theorem stocked_refused (hp : (parsed ((stocked path ds).env workingEnv) c buf).ret = 0)
    (hpath : (parsed ((stocked path ds).env workingEnv) c buf).out.path = path)
    (hfit : IndexFits path) (hplain : ¬ PlainTarget path) :
    (respond ((stocked path ds).env workingEnv) round c buf).client.respVal = .resp500 := by
  have hreach : Reaches _ workingEnv round c buf _ ds := stocked_reaches hpath hfit
  have htarget := parsed_target hp
  rw [hpath] at htarget
  apply respond_unlisted hp hreach.ret hreach.dir
  intro q hq
  rw [hpath] at hq
  obtain ⟨hres, hread⟩ := FileSystem.fopen_ok.mp (FileSystem.opendir_fopen hq)
  rw [((stocked_shows path ds).readable q).mp hread] at hres
  exact (stocked_shows path ds).elsewhere htarget hfit hplain hres

theorem plain_of_opens (ht : Target path) (hbytes : PlainBytes path) (hn : EntryName n)
    (h : OpensEntry (stocked path ds) workingEnv round (targetNode path) (path ++ slash :: n) n) :
    PlainBytes n ∧ ¬ dotdot <:+ path := by
  obtain ⟨c, hlen⟩ : ∃ c : Client, c.headerLen = (getRequest (path ++ slash :: n)).length :=
    ⟨{ blankClient with headerLen := (getRequest (path ++ slash :: n)).length }, rfl⟩
  obtain ⟨hret, p, hfirst, hres⟩ := h c hlen
  rw [resolved_first] at hfirst
  cases hfirst
  have hplain : PlainBytes n := by
    have hcwd : deepCwd.all plainName = true := by decide
    have hall := Tree.resolve_all plainName hres hcwd (localPath_plain hret)
    rw [List.all_append, Bool.and_eq_true] at hall
    exact plainName_iff.mp (by simpa using hall.2)
  refine ⟨hplain, fun hup => ?_⟩
  have hv := parsed_verdict hret
  have hall := hbytes.entry hplain
  have hne : path ++ slash :: n ≠ [] :=
    List.append_ne_nil_of_right_ne_nil _ (List.cons_ne_nil _ _)
  have hclean : dotdot ++ [slash] <:+: path ++ slash :: n :=
    (dotdot_slash_append hn.noSlash).mpr (Or.inr hup)
  rw [hlen, List.take_length, getRequest_verdict hne (entry_noNul ht hn) hall.space hall.line] at hv
  simp only [lineVerdict, hclean, if_true] at hv
  split_ifs at hv

end Stocked

/-- Every listing of a directory, whatever the file system, gives its entries back
if and only if the target is plain and so are the names in it, or is so long
that no directory is ever listed for it. -/
theorem listing_round_trips_iff (env₀ : Env) (c : Client) (buf : Bytes)
    (h : (parsed env₀ c buf).ret = 0) (hget : (parsed env₀ c buf).out.method = .get)
    (ds : List Dirent) (hnames : ∀ d ∈ visible ds, EntryName d.name) :
    (∀ (fs : FileSystem) base, Working base → ∀ round q, Reaches fs base round c buf q ds →
      RoundTrips fs base round c buf q ds) ↔
    (IndexFits (parsed env₀ c buf).out.path → PlainTarget (parsed env₀ c buf).out.path ∧
      ∀ d ∈ visible ds, PlainEntry (parsed env₀ c buf).out.path d.name) := by
  have hret : ∀ env, (parsed env c buf).ret = 0 := fun env => (parsed_env env env₀ c buf).1.trans h
  have hpath : ∀ env, (parsed env c buf).out.path = (parsed env₀ c buf).out.path :=
    fun env => (parsed_env env env₀ c buf).2
  have htarget := parsed_target h
  obtain ⟨hspace, hline⟩ := parsed_token h
  constructor
  · intro hall hfit
    generalize (parsed env₀ c buf).out.path = path at *
    -- one file system is enough: in it the target alone can be listed
    have hpath' := hpath ((stocked path ds).env workingEnv)
    have hround := hall (stocked path ds) workingEnv workingEnv_working 0 _
      (stocked_reaches hpath' hfit)
    have hplain : PlainTarget path := by
      by_contra hno
      have hcode := hround.code
      rw [stocked_refused (hret _) hpath' hfit hno] at hcode
      cases hcode
    refine ⟨hplain, fun d hd => ?_⟩
    have hlink := List.mem_map_of_mem (f := entryLink path) hd
    have hread := readItems_readable hround.items
    have hopened := hround.opened
    rw [hpath'] at hread hopened
    have hl := hread _ hlink
    exact ⟨(notMem_entry (by decide)).mp hl.href, hl.text, fun hfits => plain_of_opens htarget
      ⟨hspace, hplain.1, hline⟩ (hnames d hd) (hopened _ hlink hfits)⟩
  · intro hplain fs base hw round q hreach
    obtain ⟨rest, hrest⟩ := htarget.rooted
    obtain ⟨htgt, hentries⟩ := hplain (hpath (fs.env base) ▸ listed_fits hreach.ret hreach.dir)
    rw [← hpath (fs.env base)] at htgt hentries hrest htarget hspace hline
    obtain ⟨q', ho, hd⟩ := opendir_of_plain (hret _) htgt hreach.ret hreach.dir
    have hq : q' = q := Except.ok.inj (ho.symm.trans hreach.opened)
    rw [hq] at ho hd
    obtain ⟨hcode, hbody⟩ : (respond (fs.env base) round c buf).client.respVal = _ ∧ _ :=
      respond_lists ⟨hw.body, hw.out, hw.time⟩ (hret _) ((parsed_method env₀ _ h).trans hget)
        hreach.ret hreach.dir ho hd
    refine ⟨hcode, ?_, fun l hl hfits => ?_⟩
    · have hdrop : (slash :: rest).drop 1 = rest := rfl
      have hents : (fs.env base).readdir q = ds := hreach.entries
      rw [hbody, hents, hrest, hdrop]
      rw [hrest] at hentries
      apply links_dirBody
      intro d hd
      exact ⟨(notMem_entry (by decide)).mpr (hentries d hd).quote, (hentries d hd).tag⟩
    · obtain ⟨d, hd, rfl⟩ := List.mem_map.mp hl
      obtain ⟨st, hst⟩ := hreach.exist d hd
      obtain ⟨hbytes, hup⟩ := (hentries d hd).target hfits
      have hdots : d.name.head? ≠ some 46 := by simpa [visible] using (List.mem_filter.mp hd).2
      exact opens_of_plain htarget ⟨hspace, htgt.1, hline⟩ (hnames d hd) hdots hbytes hup hfits
        hreach.opened hst

def listingRequest (path : Bytes) : Client × Bytes :=
  ({ blankClient with headerLen := (getRequest path).length }, getRequest path)

theorem listing_round_trips_iff_hidden :
    let ds : List Dirent := [⟨ascii "..", true⟩, ⟨ascii "x", false⟩]
    let r := listingRequest (ascii "/a")
    let fs := stocked (ascii "/a") ds
    Reaches fs workingEnv 0 r.1 r.2 (targetNode (ascii "/a")) ds ∧
      RoundTrips fs workingEnv 0 r.1 r.2 (targetNode (ascii "/a")) ds := by
  intro ds r fs
  have hpath : ∀ env, (parsed env r.1 r.2).out.path = ascii "/a" := fun env =>
    (parsed_env env emptyEnv r.1 r.2).2.trans (by decide +kernel)
  have hreach : Reaches fs workingEnv 0 r.1 r.2 (targetNode (ascii "/a")) ds :=
    stocked_reaches (hpath _) (by decide +kernel)
  have hvis : visible ds = [⟨ascii "x", false⟩] := by decide +kernel
  have hname : ∀ d ∈ visible ds, EntryName d.name := by
    rw [hvis, List.forall_mem_singleton]
    exact ⟨by decide, by decide, by decide⟩
  refine ⟨hreach, (listing_round_trips_iff emptyEnv r.1 r.2 (by decide +kernel) (by decide +kernel)
    ds hname).mpr (fun _ => ?_) fs workingEnv workingEnv_working 0 _ hreach⟩
  rw [hpath, hvis, List.forall_mem_singleton]
  exact ⟨by decide, by decide, by decide,
    fun _ => ⟨⟨by decide, by decide, by decide⟩, by decide⟩⟩

/-- The link to an entry with a space in its name is refused by the parser. -/
theorem spaced_name_refused :
    let ds : List Dirent := [⟨ascii "a b", false⟩]
    let r := listingRequest (ascii "/d")
    let r' := listingRequest (ascii "/d/a b")
    let fs := stocked (ascii "/d") ds
    EntryName (ascii "a b") ∧ FitsPathMax (ascii "/d/a b") ∧
      Reaches fs workingEnv 0 r.1 r.2 (targetNode (ascii "/d")) ds ∧
      (parsed (fs.env workingEnv) r'.1 r'.2).ret = -1 ∧
      (parsed (fs.env workingEnv) r'.1 r'.2).resp = .resp400 ∧
      ¬ RoundTrips fs workingEnv 0 r.1 r.2 (targetNode (ascii "/d")) ds := by
  intro ds r r' fs
  have hpath : ∀ env, (parsed env r.1 r.2).out.path = ascii "/d" := fun env =>
    (parsed_env env emptyEnv r.1 r.2).2.trans (by decide +kernel)
  have hfits : FitsPathMax (ascii "/d/a b") := by
    rw [FitsPathMax]
    decide +kernel
  have hret : (parsed (fs.env workingEnv) r'.1 r'.2).ret = -1 := by decide +kernel
  refine ⟨⟨by decide, by decide, by decide⟩, hfits, stocked_reaches (hpath _) (by decide +kernel),
    hret, by decide +kernel, fun h => ?_⟩
  have hopened := h.opened
  rw [hpath] at hopened
  have hlink := (hopened ⟨ascii "/d/a b", ascii "a b"⟩ (by decide +kernel) hfits r'.1 rfl).1
  rw [show (parsed (fs.env workingEnv) r'.1 (getRequest (ascii "/d/a b"))).ret = -1 from hret]
    at hlink
  cases hlink

end SimpleServer
