import SimpleServer.ServeSpec

/-!
# Members of the client that serving a request does not read

From the parser to the staged response nothing looks at the input buffer of
the record or at its `timestamp`: what is parsed is handed over as an argument.
Overwriting these members commutes with every function on the way.
-/

namespace SimpleServer

open CString FileTree

structure Unread where
  inBuf : Option Bytes
  inputLength : ℕ
  inputCapacity : ℕ
  timestamp : Bytes

def Client.setUnread (u : Unread) (c : Client) : Client :=
  { c with
    inBuf := u.inBuf
    inputLength := u.inputLength
    inputCapacity := u.inputCapacity
    timestamp := u.timestamp }

def BuildResult.setUnread (u : Unread) (b : BuildResult) : BuildResult :=
  { b with client := b.client.setUnread u }

def ResolveResult.setUnread (u : Unread) (b : ResolveResult) : ResolveResult :=
  { b with client := b.client.setUnread u }

def Served.setUnread (u : Unread) (s : Served) : Served :=
  { s with client := s.client.setUnread u }

def ReadOutcome.setUnread (u : Unread) (o : ReadOutcome) : ReadOutcome :=
  { o with client := o.client.setUnread u }

section Commutes

variable (u : Unread) (env : Env) (round : ℕ) (c : Client)

theorem buildErrorResponse_setUnread (req : Request) :
    buildErrorResponse env round (c.setUnread u) req =
      (buildErrorResponse env round c req).setUnread u := by
  simp only [buildErrorResponse, apply_ite (BuildResult.setUnread u)]
  rfl

theorem buildResponseCgi_setUnread (rp : ResolvedPath) (req : Request) :
    buildResponseCgi env round (c.setUnread u) rp req =
      (buildResponseCgi env round c rp req).setUnread u := by
  simp only [buildResponseCgi, apply_ite (BuildResult.setUnread u)]
  cases cgiCollect cgiCapacity [] env.cgi.reads with
  | none => rfl
  | some got =>
    simp only [apply_ite (BuildResult.setUnread u)]
    rfl

theorem buildResponseDir_setUnread (rp : ResolvedPath) (req : Request) :
    buildResponseDir env round (c.setUnread u) rp req =
      (buildResponseDir env round c rp req).setUnread u := by
  simp only [buildResponseDir, apply_ite (BuildResult.setUnread u)]
  cases env.opendir (req.path.drop 1) with
  | error e => rfl
  | ok node =>
    simp only [apply_ite (BuildResult.setUnread u)]
    cases env.gmtime rp.lastMod with
    | none => rfl
    | some modTime =>
      simp only [apply_ite (BuildResult.setUnread u)]
      rfl

theorem buildResponseFile_setUnread (rp : ResolvedPath) (req : Request) :
    buildResponseFile env round (c.setUnread u) rp req =
      (buildResponseFile env round c rp req).setUnread u := by
  simp only [buildResponseFile]
  cases env.gmtime rp.lastMod with
  | none => rfl
  | some modTime =>
    simp only [apply_ite (BuildResult.setUnread u)]
    rfl

theorem buildByType_setUnread (rp : ResolvedPath) (req : Request) :
    buildByType env round (c.setUnread u) rp req =
      (buildByType env round c rp req).setUnread u := by
  simp only [buildByType]
  cases rp.pathType
  · rfl
  · exact buildResponseFile_setUnread u env round c rp req
  · exact buildResponseDir_setUnread u env round c rp req
  · exact buildResponseCgi_setUnread u env round c rp req

theorem buildOkayResponse_setUnread (rp : ResolvedPath) (req : Request) :
    buildOkayResponse env round (c.setUnread u) rp req =
      (buildOkayResponse env round c rp req).setUnread u := by
  have hb := buildByType_setUnread u env round { c with respVal := .resp200 } rp req
  have he := buildErrorResponse_setUnread u env round (resetForError
    (buildByType env round { c with respVal := .resp200 } rp req).client) req
  have hc : { c.setUnread u with respVal := .resp200 } =
    ({ c with respVal := .resp200 } : Client).setUnread u := rfl
  have hr : ∀ c : Client, resetForError (c.setUnread u) = (resetForError c).setUnread u :=
    fun _ => rfl
  simp only [buildOkayResponse, hc, hb, apply_ite (BuildResult.setUnread u)]
  simp only [BuildResult.setUnread, hr, he]
  rfl

theorem resolvePath_setUnread (req : Request) (rp : ResolvedPath) :
    resolvePath env round (c.setUnread u) req rp =
      (resolvePath env round c req rp).setUnread u := by
  have hi : ∀ rp h, handleDirIndex env (c.setUnread u) rp h =
      (handleDirIndex env c rp h).setUnread u := fun rp h => by
    simp only [handleDirIndex]
    cases env.fstat h.site h.node <;> rfl
  have hd : ∀ rp path h st, resolveDirectory env round (c.setUnread u) rp path h st =
      (resolveDirectory env round c rp path h st).setUnread u := fun rp path h st => by
    simp only [resolveDirectory, hi]
    split
    · rfl
    · split <;> rfl
  have ho : ∀ rp path h st, resolveOpened env round (c.setUnread u) rp path h st =
      (resolveOpened env round c rp path h st).setUnread u := fun rp path h st => by
    simp only [resolveOpened, hd, apply_ite (ResolveResult.setUnread u)]
    rfl
  simp only [resolvePath]
  cases env.fopen .target (localPath req.path) with
  | error e => rfl
  | ok node =>
    simp only
    cases env.fstat .target node with
    | none => rfl
    | some st =>
      simp only [show (c.setUnread u).fd = c.fd from rfl, ho]
      rfl

theorem respond_setUnread (buf : Bytes) :
    respond env round (c.setUnread u) buf = (respond env round c buf).setUnread u := by
  have hp : parsed env (c.setUnread u) buf = parsed env c buf := rfl
  have hr : resolved env round (c.setUnread u) buf = (resolved env round c buf).setUnread u :=
    resolvePath_setUnread u env round { c with respVal := (parsed env c buf).resp } _ _
  by_cases h : (parsed env c buf).ret = 0
  · by_cases h' : (resolved env round c buf).ret = 0
    · rw [respond_found h h', respond_found (by rw [hp, h]) (by rw [hr]; exact h'), hr, hp]
      simp only [ResolveResult.setUnread, buildOkayResponse_setUnread]
      rfl
    · rw [respond_unresolved h h', respond_unresolved (by rw [hp, h]) (by rw [hr]; exact h'), hr,
        hp]
      simp only [ResolveResult.setUnread, buildErrorResponse_setUnread]
      rfl
  · rw [respond_refused h, respond_refused (by rw [hp]; exact h), hp]
    have hb := buildErrorResponse_setUnread u env round
      { c with respVal := (parsed env c buf).resp } (parsed env c buf).out
    have hc : { c.setUnread u with respVal := (parsed env c buf).resp } =
      ({ c with respVal := (parsed env c buf).resp } : Client).setUnread u := rfl
    simp only [hc, hb]
    rfl

theorem serve_setUnread (p : PollFd) (buf : Bytes) :
    serve env round (c.setUnread u) p buf = (serve env round c p buf).setUnread u := by
  simp only [serve, respond_setUnread]
  rfl

end Commutes

end SimpleServer
