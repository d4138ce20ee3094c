import SimpleServer.ListingRoundTrip
import SimpleServer.StaticSite

/-!
# What the peer of a directory reads

For a directory without an index page the peer reads a page with a link to each
entry that does not begin with a dot, announced with its whole length. The
directory that is listed is opened a second time, by the target without its
first slash and with its query: where that pathname leads to a directory, its
entries are the ones that are listed, and where it does not, as it does not for
the document root, the peer reads an error.
-/

namespace SimpleServer

open CString FileTree Pathname Markup

def FileSystem.Bare (fs : FileSystem) (target : Bytes) : Prop :=
  ¬ cgiBin <+: dot ++ component target ∧ ∃ q st, fs.fopen (dot ++ component target) = .ok q ∧
    fs.stat q = some st ∧ st.isDir = true ∧ fs.child q dirIndex = none ∧
    fs.child q dirIndex2 = none

structure ListingPage (target : Bytes) (ds : List Dirent) (m sent : Bytes) : Prop where
  message : ∃ head : Head, head.code = ascii "200" ∧ head.mime = ascii "text/html" ∧
    head.len = (dirBody (target.drop 1) ds).length ∧
    HttpMessage.read sent = some (head.message
      (if m = ascii "GET" then dirBody (target.drop 1) ds else []))
  items : (∀ d ∈ visible ds, Readable (entryLink target d)) →
    links (dirBody (target.drop 1) ds) = some ((visible ds).map (entryLink target))

/-- What a peer that asked for a directory with the method `m` reads. A plain
target is opened both times as the same directory. -/
structure ListingRead (fs : FileSystem) (m target sent : Bytes) : Prop where
  listed : ∀ q, fs.opendir (target.drop 1) = .ok q → ListingPage target (fs.entries q) m sent
  refused : ∀ e, fs.opendir (target.drop 1) = .error e → (Page.failure .resp500).Read fs m sent
  same : PlainTarget target →
    ∃ q, fs.fopen (dot ++ component target) = .ok q ∧ fs.opendir (target.drop 1) = .ok q

section Resolving

variable {fs : FileSystem} {env : Env} {round : ℕ} {c : Client} {rp : ResolvedPath} {req : Request}

theorem resolvePath_bare (hserves : Serves fs env) (hlen : SiteFits req.path)
    (h : fs.Bare req.path) : (resolvePath env round c req rp).ret = 0 ∧
      (resolvePath env round c req rp).rp.pathType = .isDir := by
  obtain ⟨hcgi, q, st, ho, hs, hd, hnone, hnone2⟩ := h
  have hopen : ∀ site p, env.fopen site p = fs.fopen p := by
    rw [hserves]
    intros
    rfl
  have hstat : ∀ site i, env.fstat site i = fs.stat i := by
    rw [hserves]
    intros
    rfl
  have hplain : pathIncludesCgi (dot ++ component req.path) = false := by
    rw [← Bool.not_eq_true, pathIncludesCgi_iff]
    exact hcgi
  have hindex := (fopen_index ho hs hd (Or.inl rfl)).trans hnone
  have hindex2 := (fopen_index ho hs hd (Or.inr rfl)).trans hnone2
  simp only [resolvePath, localPath_fits hlen, hopen, hstat, ho, hs, resolveOpened, hplain, hd,
    Bool.false_eq_true, false_and, if_false, if_true, resolveDirectory,
    getFilePath_index hlen (show dirIndex.length ≤ 10 by decide),
    getFilePath_index hlen (show dirIndex2.length ≤ 10 by decide)]
  cases hx : fs.fopen (indexName (component req.path) dirIndex) with
  | ok i =>
    rw [hx] at hindex
    cases hindex
  | error e =>
    cases hy : fs.fopen (indexName (component req.path) dirIndex2) with
    | ok i =>
      rw [hy] at hindex2
      cases hindex2
    | error e' => exact ⟨rfl, rfl⟩

end Resolving

section Answers

variable {fs : FileSystem} {env : Env} {round : ℕ} {c : Client} {buf m target out : Bytes} {q : Node}
  {ds : List Dirent}

theorem links_target (ht : Target target)
    (h : ∀ d ∈ visible ds, Readable (entryLink target d)) :
    links (dirBody (target.drop 1) ds) = some ((visible ds).map (entryLink target)) := by
  obtain ⟨rest, rfl⟩ := ht.rooted
  exact links_dirBody h

theorem dirDelivery_opened (hserves : Serves fs env) (hw : Working env) {rp : ResolvedPath}
    {req : Request} (ho : fs.opendir (req.path.drop 1) = .ok q) :
    ∃ modTime, env.gmtime rp.lastMod = some modTime ∧
      dirDelivery env rp req = some
        (dirHeader req modTime.text (dirBody (req.path.drop 1) (fs.entries q)).length,
          dirBody (req.path.drop 1) (fs.entries q)) := by
  have hopen : ∀ p, env.opendir p = fs.opendir p := by
    rw [hserves]
    intro
    rfl
  have hread : ∀ q, env.readdir q = fs.entries q := by
    rw [hserves]
    intro
    rfl
  obtain ⟨modTime, ht⟩ := Option.isSome_iff_exists.mp (hw.time rp.lastMod)
  refine ⟨modTime, ht, ?_⟩
  simp only [dirDelivery, hopen, ho, ht, hw.body, hw.out, and_self, if_true, hread]

theorem dirDelivery_refused (hserves : Serves fs env) {rp : ResolvedPath} {req : Request} {e : Errno}
    (ho : fs.opendir (req.path.drop 1) = .error e) : dirDelivery env rp req = none := by
  have hopen : env.opendir (req.path.drop 1) = .error e := by
    rw [hserves]
    exact ho
  rw [dirDelivery, hopen]

theorem respond_listing (hserves : Serves fs env) (hw : Working env) (he : PlainEnv env)
    (hc : c.outBuf = none) (hp : (parsed env c buf).ret = 0)
    (hm : (parsed env c buf).out.method = if m = ascii "GET" then .get else .head)
    (hfit : SiteFits (parsed env c buf).out.path) (hbare : fs.Bare (parsed env c buf).out.path)
    (ho : (respond env round c buf).client.outBuf = some out) :
    ListingRead fs m (parsed env c buf).out.path out := by
  obtain ⟨hr, hkind⟩ : (resolved env round c buf).ret = 0 ∧
    (resolved env round c buf).rp.pathType = .isDir := resolvePath_bare hserves hfit hbare
  have hnot : ¬ FromScript env round c buf := not_fromScript hkind (by decide)
  refine ⟨fun q hdir => ?_, fun e hdir => ?_, fun hplain => ?_⟩
  · obtain ⟨modTime, htime, hdel⟩ : ∃ modTime,
        env.gmtime (resolved env round c buf).rp.lastMod = some modTime ∧ _ :=
      dirDelivery_opened hserves hw hdir
    have hresponse : response env round c buf = (dirHeader (parsed env c buf).out modTime.text
        (dirBody ((parsed env c buf).out.path.drop 1) (fs.entries q)).length,
          dirBody ((parsed env c buf).out.path.drop 1) (fs.entries q)) := by
      rw [response, if_pos hp, if_pos hr, delivery, hkind]
      simp only [hdel, Option.getD_some]
    have hsent := respond_sent he.output hc hnot ho
    rw [hresponse, sentBody_method hm] at hsent
    have htext : ∀ t, some modTime.text = some t → OneLine t := by
      rintro t ⟨⟩
      exact he.times _ _ htime
    have hdate : OneLine (parsed env c buf).out.timeReceived := parsed_time_oneLine he
    have hhead := okHead_isHead hdate htext (show OneLine (ascii "text/html") by decide)
      (dirHeader_lines _ _ (dirBody ((parsed env c buf).out.path.drop 1) (fs.entries q)).length)
    exact ⟨⟨_, rfl, rfl, rfl, read_staged hhead hsent⟩, links_target (parsed_target hp)⟩
  · refine respond_failure he hc hm hnot (by decide) ?_ ho
    simp [response, hp, hr, delivery, hkind, dirDelivery_refused hserves hdir, failCode]
  · have henv : fs.env env = env := Eq.symm hserves
    rw [← henv] at hp hr hkind hplain
    obtain ⟨q, hq, hdir⟩ := opendir_of_plain hp hplain hr hkind
    rw [henv] at hq hdir
    rw [localPath_fits hfit] at hq
    exact ⟨q, hq, hdir⟩

end Answers

/-- Over a file system that stays as it is, a peer that names a directory without
an index page reads the links to its entries, or that they cannot be listed. -/
theorem listings_served (fs : FileSystem) {pfds : ℕ → PollFd} {clients : ℕ → Client}
    {v4 v6 : Option ℕ} {s₀ s : Server} {answers : List PollAnswer}
    (h0 : setup pfds clients v4 v6 = .ok s₀) (h : eventLoop s₀ answers = .ok s)
    (hfs : ∀ r, .ready r ∈ answers → ∀ fd, Serves fs (r.env fd))
    (hw : ∀ r, .ready r ∈ answers → ∀ fd, Working (r.env fd) ∧ PlainEnv (r.env fd)) :
    ∀ x ∈ endings s.trace, x.sent ≠ [] → ∀ m target,
      askedFor x.client.received = some (m, target) → SiteFits target → fs.Bare target →
        ListingRead fs m target x.sent := by
  intro x hx hne m target hasked hfit hbare
  obtain ⟨q, -, hf, hbuf, -, hclient⟩ := ended_faithful h0 h hx hne
  obtain ⟨r, fd, hr, henv⟩ := hf.outside
  have hserves : Serves fs q.env := henv ▸ hfs r hr fd
  have hworking : Working q.env ∧ PlainEnv q.env := henv ▸ hw r hr fd
  rw [hbuf] at hasked
  obtain ⟨hp, hpath, hm⟩ := parsed_askedFor hf hasked
  rw [← hpath] at hfit hbare ⊢
  exact respond_listing hserves hworking.1 hworking.2 hf.unstaged hp hm hfit hbare hclient

def oneDirectory : FileSystem where
  tree := listed ⟨true, 0, 0⟩ ⟨false, 2, 0⟩ directory_isDir [[], [ascii "d"]]
    [[ascii "d", ascii ".a"], [ascii "d", ascii "b"]] [] (by decide) (by decide)
  readable _ := true
  contents _ := ascii "hi"
  entries _ := [⟨ascii ".a", false⟩, ⟨ascii "b", false⟩]

def listingRounds : List PollAnswer :=
  [.ready { acceptRound [7] with env := fun _ => oneDirectory.env workingEnv },
    .ready (readRound (oneDirectory.env workingEnv)
      [.data ⟨ascii "GET /d HTTP/1.0" ++ headerEnd, by decide, by decide⟩ true]),
    .ready { writeRound [.ret 100000] with env := fun _ => oneDirectory.env workingEnv }]

theorem listings_served_hidden :
    ∃ s, eventLoop startServer listingRounds = .ok s ∧ ∃ x ∈ endings s.trace,
      askedFor x.client.received = some (ascii "GET", ascii "/d") ∧
      ∃ (head : Head) (body : Bytes), head.len = body.length ∧
        HttpMessage.read x.sent = some (head.message body) ∧
        links body = some [⟨ascii "/d/b", ascii "b"⟩] := by
  have henv : ∀ r, .ready r ∈ listingRounds →
      ∀ fd, r.env fd = oneDirectory.env workingEnv := by
    intro r hr fd
    simp only [listingRounds, List.mem_cons, List.not_mem_nil, or_false,
      PollAnswer.ready.injEq] at hr
    rcases hr with rfl | rfl | rfl <;> rfl
  have hfits : SiteFits (ascii "/d") := by
    change (component (ascii "/d")).length ≤ pathMax - 13
    decide +kernel
  have hbare : oneDirectory.Bare (ascii "/d") :=
    ⟨by decide +kernel, [ascii "d"], ⟨true, 0, 0⟩, by decide +kernel, by decide +kernel, rfl,
      by decide +kernel, by decide +kernel⟩
  obtain ⟨s, hs, ht⟩ := Run.arrives_iff.mp (show Run.arrives
    (fun s => (endings s.trace).any fun x => decide (x.sent ≠ [] ∧
      askedFor x.client.received = some (ascii "GET", ascii "/d")))
    (eventLoop startServer listingRounds) = true by decide +kernel)
  obtain ⟨x, hx, hw⟩ := List.any_eq_true.mp ht
  obtain ⟨hne, hasked⟩ := of_decide_eq_true hw
  have hread := listings_served oneDirectory setup_startServer hs
    (fun r hr fd => henv r hr fd ▸ rfl)
    (fun r hr fd => by rw [henv r hr fd]; exact workingEnv_site oneDirectory) x hx hne _ _ hasked
    hfits hbare
  obtain ⟨⟨head, -, -, hlen, hmsg⟩, hitems⟩ :=
    hread.listed [ascii "d"] (show oneDirectory.opendir (ascii "d") = _ by decide +kernel)
  have hvisible : visible (oneDirectory.entries [ascii "d"]) = [⟨ascii "b", false⟩] := by
    decide +kernel
  rw [hvisible, List.forall_mem_singleton] at hitems
  exact ⟨s, hs, x, hx, hasked, head, _, hlen, hmsg, hitems ⟨by decide, by decide⟩⟩

end SimpleServer
