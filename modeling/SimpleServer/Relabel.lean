import SimpleServer.Dispatch

/-!
# Descriptors and poll rounds are names

A descriptor tells clients apart and, with the number of the poll round, the
`FILE` handles opened for them; neither is computed with, and the member
`timestamp` is not read at all. Giving them other values commutes with every
function a visit consists of, so what a visit does depends on a client's record
and on the answers it gets, and not on how the client is called.
-/

namespace SimpleServer

open CString FileTree

/-- New names for the descriptors and the poll rounds, and new contents for the
member `timestamp`. -/
structure Relabel where
  fd : ℕ → ℕ
  round : ℕ → ℕ
  timestamp : Bytes → Bytes

namespace Relabel

variable (L : Relabel)

def handle (h : Handle) : Handle := ⟨L.round h.round, L.fd h.fd, h.site, h.node⟩

def client (c : Client) : Client :=
  { c with
    fd := L.fd c.fd
    filePtr := c.filePtr.map L.handle
    timestamp := L.timestamp c.timestamp }

def pollFd (p : PollFd) : PollFd := { p with fd := L.fd p.fd }

def entry (e : Entry) : Entry := (L.pollFd e.1, L.client e.2)

def resolvedPath (rp : ResolvedPath) : ResolvedPath :=
  { rp with filePtr := rp.filePtr.map L.handle }

def resource : Resource → Resource
  | .file h => .file (L.handle h)
  | .scratch round fd s => .scratch (L.round round) (L.fd fd) s

def event : Event → Event
  | .acquire r => .acquire (L.resource r)
  | .release r => .release (L.resource r)
  | .visit p c => .visit (L.pollFd p) (L.client c)
  | .sent fd bytes => .sent (L.fd fd) bytes
  | .shutdown fd => .shutdown (L.fd fd)
  | .close c => .close (L.client c)
  | ev => ev

def buildResult (b : BuildResult) : BuildResult :=
  ⟨b.ret, L.client b.client, b.events.map L.event⟩

def resolveResult (r : ResolveResult) : ResolveResult :=
  ⟨r.ret, L.client r.client, L.resolvedPath r.rp, r.events.map L.event⟩

def served (s : Served) : Served :=
  ⟨L.client s.client, L.resolvedPath s.rp, s.le, s.events.map L.event⟩

def readOutcome (o : ReadOutcome) : ReadOutcome :=
  ⟨L.client o.client, L.pollFd o.pollFd, o.events.map L.event⟩

def writeOutcome (o : WriteOutcome) : WriteOutcome := ⟨L.client o.client, o.events.map L.event⟩

def visit (v : Visit) : Visit := ⟨v.kept.map L.entry, v.events.map L.event⟩

section Builders

variable (env : Env) (round : ℕ) (c : Client) (rp : ResolvedPath) (req : Request)

theorem buildErrorResponse_relabel :
    buildErrorResponse env (L.round round) (L.client c) req =
      L.buildResult (buildErrorResponse env round c req) := by
  simp only [buildErrorResponse, apply_ite L.buildResult]
  rfl

theorem buildResponseCgi_relabel :
    buildResponseCgi env (L.round round) (L.client c) (L.resolvedPath rp) req =
      L.buildResult (buildResponseCgi env round c rp req) := by
  simp only [buildResponseCgi, apply_ite L.buildResult]
  cases cgiCollect cgiCapacity [] env.cgi.reads with
  | none => rfl
  | some got =>
    simp only [apply_ite L.buildResult]
    rfl

theorem buildResponseDir_relabel :
    buildResponseDir env (L.round round) (L.client c) (L.resolvedPath rp) req =
      L.buildResult (buildResponseDir env round c rp req) := by
  simp only [buildResponseDir, apply_ite L.buildResult]
  cases env.opendir (req.path.drop 1) with
  | error e => rfl
  | ok node =>
    simp only [apply_ite L.buildResult, show (L.resolvedPath rp).lastMod = rp.lastMod from rfl]
    cases env.gmtime rp.lastMod with
    | none => rfl
    | some modTime =>
      simp only [apply_ite L.buildResult]
      rfl

theorem buildResponseFile_relabel :
    buildResponseFile env (L.round round) (L.client c) (L.resolvedPath rp) req =
      L.buildResult (buildResponseFile env round c rp req) := by
  have hbody : ((L.resolvedPath rp).filePtr.map fun h => env.fread h.node) =
      rp.filePtr.map fun h => env.fread h.node := Option.map_map _ _ _
  simp only [buildResponseFile, hbody, show (L.resolvedPath rp).lastMod = rp.lastMod from rfl]
  cases env.gmtime rp.lastMod with
  | none => rfl
  | some modTime =>
    simp only [apply_ite L.buildResult]
    rfl

theorem buildByType_relabel :
    buildByType env (L.round round) (L.client c) (L.resolvedPath rp) req =
      L.buildResult (buildByType env round c rp req) := by
  simp only [buildByType, show (L.resolvedPath rp).pathType = rp.pathType from rfl]
  cases rp.pathType with
  | unknown => rfl
  | isFile => exact L.buildResponseFile_relabel env round c rp req
  | isDir => exact L.buildResponseDir_relabel env round c rp req
  | isCgi => exact L.buildResponseCgi_relabel env round c rp req

theorem buildOkayResponse_relabel :
    buildOkayResponse env (L.round round) (L.client c) (L.resolvedPath rp) req =
      L.buildResult (buildOkayResponse env round c rp req) := by
  have hb := L.buildByType_relabel env round { c with respVal := .resp200 } rp req
  have he := L.buildErrorResponse_relabel env round (resetForError
    (buildByType env round { c with respVal := .resp200 } rp req).client) req
  have hc : { L.client c with respVal := .resp200 } =
    L.client { c with respVal := .resp200 } := rfl
  have hr : ∀ c : Client, resetForError (L.client c) = L.client (resetForError c) := fun _ => rfl
  simp only [buildOkayResponse, hc, hb, apply_ite L.buildResult]
  simp only [buildResult, hr, he, List.map_append, apply_ite (List.map L.event)]
  rfl

end Builders

section Resolve

variable (env : Env) (round : ℕ) (c : Client) (rp : ResolvedPath)

theorem handleDirIndex_relabel (h : Handle) :
    handleDirIndex env (L.client c) (L.resolvedPath rp) (L.handle h) =
      L.resolveResult (handleDirIndex env c rp h) := by
  simp only [handleDirIndex, show (L.handle h).site = h.site from rfl,
    show (L.handle h).node = h.node from rfl]
  cases env.fstat h.site h.node <;> rfl

theorem resolveDirectory_relabel (path : Bytes) (h : Handle) (st : Stat) :
    resolveDirectory env (L.round round) (L.client c) (L.resolvedPath rp) path (L.handle h) st =
      L.resolveResult (resolveDirectory env round c rp path h st) := by
  have hi : ∀ site node, handleDirIndex env (L.client c) (L.resolvedPath rp)
      ⟨L.round round, (L.client c).fd, site, node⟩ =
        L.resolveResult (handleDirIndex env c rp ⟨round, c.fd, site, node⟩) :=
    fun site node => L.handleDirIndex_relabel env c rp ⟨round, c.fd, site, node⟩
  simp only [resolveDirectory, hi]
  split
  · rfl
  · split <;> rfl

theorem resolveOpened_relabel (path : Bytes) (h : Handle) (st : Stat) :
    resolveOpened env (L.round round) (L.client c) (L.resolvedPath rp) path (L.handle h) st =
      L.resolveResult (resolveOpened env round c rp path h st) := by
  have hd := L.resolveDirectory_relabel env round c
    { rp with pathType := if pathIncludesCgi path then .isCgi else .isFile } path h st
  simp only [resolveOpened, apply_ite L.resolveResult, ← hd]
  rfl

theorem storeQuery_relabel (path : Bytes) :
    storeQuery (L.resolvedPath rp) path = L.resolvedPath (storeQuery rp path) := by
  simp only [storeQuery]
  cases queryBuffer path <;> rfl

theorem resolvePath_relabel (req : Request) :
    resolvePath env (L.round round) (L.client c) req (L.resolvedPath rp) =
      L.resolveResult (resolvePath env round c req rp) := by
  simp only [resolvePath, storeQuery_relabel]
  cases env.fopen .target (localPath req.path) with
  | error e => rfl
  | ok node =>
    simp only
    cases env.fstat .target node with
    | none => rfl
    | some st =>
      have ho := L.resolveOpened_relabel env round c
        { storeQuery rp req.path with filePtr := some ⟨round, c.fd, .target, node⟩ }
        (localPath req.path) ⟨round, c.fd, .target, node⟩ st
      exact congrArg (fun r : ResolveResult => (⟨r.ret, r.client, r.rp,
        [.fopen (localPath req.path), .acquire (.file ⟨L.round round, L.fd c.fd, .target, node⟩)] ++
          r.events⟩ : ResolveResult)) ho

end Resolve

section Read

variable (env : Env) (round : ℕ) (c : Client) (p : PollFd) (buf : Bytes)

theorem parsed_relabel : parsed env (L.client c) buf = parsed env c buf := rfl

theorem resolved_relabel :
    resolved env (L.round round) (L.client c) buf = L.resolveResult (resolved env round c buf) :=
  L.resolvePath_relabel env round { c with respVal := (parsed env c buf).resp } .zero
    (parsed env c buf).out

theorem respond_relabel :
    respond env (L.round round) (L.client c) buf = L.served (respond env round c buf) := by
  have hp := L.parsed_relabel env c buf
  have hr := L.resolved_relabel env round c buf
  by_cases h : (parsed env c buf).ret = 0
  · by_cases h' : (resolved env round c buf).ret = 0
    · rw [respond_found h h', respond_found (by rw [hp, h]) (by rw [hr]; exact h'), hr, hp]
      simp only [resolveResult, buildOkayResponse_relabel, served, List.map_append]
      rfl
    · rw [respond_unresolved h h', respond_unresolved (by rw [hp, h]) (by rw [hr]; exact h'), hr,
        hp]
      simp only [resolveResult, buildErrorResponse_relabel, served, List.map_append]
      rfl
  · rw [respond_refused h, respond_refused (by rw [hp]; exact h), hp]
    have hb := L.buildErrorResponse_relabel env round
      { c with respVal := (parsed env c buf).resp } (parsed env c buf).out
    have hc : { L.client c with respVal := (parsed env c buf).resp } =
      L.client { c with respVal := (parsed env c buf).resp } := rfl
    simp only [hc, hb]
    rfl

theorem serve_relabel :
    serve env (L.round round) (L.client c) (L.pollFd p) buf =
      L.readOutcome (serve env round c p buf) := by
  have hlog : ∀ s : Served, (logServed env.flags s).map L.event = logServed env.flags s := by
    intro s
    simp only [logServed]
    split_ifs <;> rfl
  have hptr : ∀ rp : ResolvedPath, (closeResolvePathPtr (L.resolvedPath rp)).2 =
      (closeResolvePathPtr rp).2.map L.event := by
    intro rp
    simp only [closeResolvePathPtr, resolvedPath]
    cases rp.filePtr <;> rfl
  simp only [serve, respond_relabel, readOutcome, List.map_append, hlog, ← hptr]
  rfl

theorem append_relabel (data : Bytes) (realloc : Bool) :
    append (L.client c) data realloc = L.client (append c data realloc) := by
  simp only [append, apply_ite L.client]
  rfl

theorem recvLoop_relabel (rs : List RecvResult) :
    recvLoop (L.client c) rs = (L.client (recvLoop c rs).1, (recvLoop c rs).2) := by
  induction rs generalizing c with
  | nil => rfl
  | cons a rs ih =>
    cases a with
    | data chunk realloc =>
      simp only [recvLoop, append_relabel,
        show ∀ c, (L.client c).state = c.state from fun _ => rfl]
      split_ifs
      · rfl
      · exact ih _
    | eof => rfl
    | fail e =>
      simp only [recvLoop]
      split_ifs
      · rfl
      · exact ih c
      · rfl

theorem doRead_relabel (rs : List RecvResult) :
    doRead env (L.round round) rs (L.client c) (L.pollFd p) =
      L.readOutcome (doRead env round rs c p) := by
  have hr := L.recvLoop_relabel c rs
  have hleft : (recvLoop (L.client c) rs).2 = (recvLoop c rs).2 := by rw [hr]
  have hc : (recvLoop (L.client c) rs).1 = L.client (recvLoop c rs).1 := by rw [hr]
  have hb : (recvLoop (L.client c) rs).1.inBuf = (recvLoop c rs).1.inBuf := by
    rw [hc]
    rfl
  have hl : (recvLoop (L.client c) rs).1.inputLength = (recvLoop c rs).1.inputLength := by
    rw [hc]
    rfl
  rcases doRead_cases env (L.round round) rs (L.client c) (L.pollFd p) with
    ⟨h', hwhy⟩ | ⟨buf, k, h1, h2, -, h3, h'⟩
  · rw [hleft, hb, hl] at hwhy
    rw [h', hc]
    rcases doRead_cases env round rs c p with ⟨h, -⟩ | ⟨buf, k, h1, h2, h0, h3, -⟩
    · rw [h]
      rfl
    · simp [h1, h2, h0, h3] at hwhy
  · rw [hleft] at h1
    rw [hb] at h2
    rw [hl] at h3
    rw [h', hc, doRead_serve h1 h2 h3]
    exact L.serve_relabel env round { (recvLoop c rs).1 with headerLen := k + 4 } p buf

end Read

theorem sendLoop_relabel (c : Client) (rs : List SendResult) :
    sendLoop (L.client c) rs = (sendLoop c rs).map L.writeOutcome := by
  induction rs generalizing c with
  | nil =>
    simp only [sendLoop, apply_ite (Except.map L.writeOutcome)]
    rfl
  | cons a rs ih =>
    rcases Nat.lt_or_ge c.outputSent c.outputLength with hlt | hge
    · by_cases hn : a.count (c.outputLength - c.outputSent) = 0
      · rw [sendLoop_refused hlt hn]
        exact sendLoop_refused (c := L.client c) hlt hn
      · have hi := ih (c.advance (a.count (c.outputLength - c.outputSent)))
        rw [sendLoop_sent hlt hn]
        refine (sendLoop_sent (c := L.client c) hlt hn).trans ?_
        refine (congrArg (Except.map _) hi).trans ?_
        cases sendLoop (c.advance (a.count (c.outputLength - c.outputSent))) rs <;> rfl
    · rw [sendLoop_done hge]
      exact sendLoop_done (c := L.client c) hge

theorem doWrite_relabel (c : Client) (rs : List SendResult) :
    doWrite rs (L.client c) = (doWrite rs c).map L.writeOutcome := by
  simp only [doWrite, sendLoop_relabel, apply_ite (Except.map L.writeOutcome)]
  rfl

theorem closeEvents_relabel (c : Client) :
    closeEvents (L.client c) = (closeEvents c).map L.event := by
  simp only [closeEvents, show (L.client c).filePtr = c.filePtr.map L.handle from rfl]
  cases c.filePtr <;> rfl

end Relabel

/-- What `r'` tells the client `fd'` is what `r` tells the client `fd`. -/
structure TellsSame (r r' : Round) (fd fd' : ℕ) : Prop where
  recvs : r'.recvs fd' = r.recvs fd
  sends : r'.sends fd' = r.sends fd
  env : r'.env fd' = r.env fd

namespace Relabel

variable (L : Relabel) {r r' : Round} {round : ℕ} {e : Entry}

theorem readEntry_relabel (h : TellsSame r r' e.2.fd (L.fd e.2.fd)) :
    readEntry r' (L.round round) (L.entry e) = L.readOutcome (readEntry r round e) := by
  have hd := L.doRead_relabel (r.env e.2.fd) round e.2 e.1 (r.recvs e.2.fd)
  rw [← h.env, ← h.recvs] at hd
  simp only [readEntry, apply_ite L.readOutcome, ← h.env, ← h.recvs, ← hd]
  rfl

theorem writeEntry_relabel {c : Client} (h : TellsSame r r' c.fd (L.fd c.fd))
    (revents : PollMask) :
    writeEntry r' revents (L.client c) = (writeEntry r revents c).map L.writeOutcome := by
  have hd := L.doWrite_relabel c (r.sends c.fd)
  rw [← h.sends] at hd
  simp only [writeEntry, apply_ite (Except.map L.writeOutcome), ← h.sends, ← hd]
  rfl

theorem visitEntry_relabel (h : TellsSame r r' e.2.fd (L.fd e.2.fd)) :
    visitEntry r' (L.round round) (L.entry e) = (visitEntry r round e).map L.visit := by
  by_cases h0 : e.1.revents = 0
  · rw [visitEntry_idle h0, visitEntry_idle (e := L.entry e) h0]
    rfl
  by_cases h1 : e.1.revents &&& pollFailed ≠ 0
  · rw [visitEntry_failed h0 h1, visitEntry_failed (e := L.entry e) h0 h1]
    exact congrArg (fun ev => Except.ok (⟨none, .visit (L.pollFd e.1) (L.client e.2) :: ev⟩ : Visit))
      (L.closeEvents_relabel e.2)
  rw [visitEntry_dispatch h0 h1, visitEntry_dispatch (e := L.entry e) h0 h1]
  have hread : readEntry r' (L.round round) (L.entry e) = L.readOutcome (readEntry r round e) :=
    L.readEntry_relabel h
  have hfd : (readEntry r round e).client.fd = e.2.fd := readEntry_fd.1
  have hw' : writeEntry r' (L.entry e).1.revents (readEntry r' (L.round round) (L.entry e)).client =
      (writeEntry r e.1.revents (readEntry r round e).client).map L.writeOutcome := by
    rw [hread]
    exact L.writeEntry_relabel (hfd ▸ h) e.1.revents
  cases hw : writeEntry r e.1.revents (readEntry r round e).client with
  | error x =>
    rw [hw] at hw'
    rw [dispatch_error hw, dispatch_error hw']
    rfl
  | ok w =>
    rw [hw] at hw'
    by_cases hc : w.client.state = .closing
    · rw [dispatch_closing hw hc, dispatch_closing hw' hc, hread]
      simp only [Except.map, visit, writeOutcome, closeEvents_relabel, List.map_append,
        List.map_cons]
      rfl
    · rw [dispatch_kept hw hc, dispatch_kept hw' hc, hread]
      simp only [Except.map, visit, writeOutcome, List.map_append, List.map_cons]
      rfl

end Relabel

end SimpleServer
