import SimpleServer.ClientConn.DoWrite

/-!
# What serving a request does

For each of the builders: the members of the client it writes (`BuildFrame`)
and the events it leaves (`BuildEvent`). Together with the corresponding facts
about `resolve_path` they say what `do_read` may change in a client and what
it can have handed to the outside.
-/

namespace SimpleServer

open CString FileTree

/-- The only members of the client that the builders write. -/
structure BuildFrame (c c' : Client) : Prop where
  eq : c' = { c with
    respVal := c'.respVal
    outBuf := c'.outBuf
    outputLength := c'.outputLength
    headerLen := c'.headerLen
    bodyLen := c'.bodyLen
    fileSize := c'.fileSize }

theorem BuildFrame.trans {c c' c'' : Client} (h : BuildFrame c c') (h' : BuildFrame c' c'') :
    BuildFrame c c'' := by
  constructor
  rw [h'.eq, h.eq]

inductive BuildEvent (round : ℕ) (c : Client) (rp : ResolvedPath) (req : Request) : Event → Prop
  | acquire (s : Scratch) : BuildEvent round c rp req (.acquire (.scratch round c.fd s))
  | release (s : Scratch) : BuildEvent round c rp req (.release (.scratch round c.fd s))
  | opendir : rp.pathType = .isDir → BuildEvent round c rp req (.opendir (req.path.drop 1))
  | execvp : rp.pathType = .isCgi → BuildEvent round c rp req (.execvp (execCall c rp req))

section Builders

variable (env : Env) (round : ℕ) (c : Client) (rp : ResolvedPath) (req : Request)

theorem buildErrorResponse_frame : BuildFrame c (buildErrorResponse env round c req).client := by
  simp only [buildErrorResponse]
  split_ifs <;> exact ⟨rfl⟩

theorem buildErrorResponse_events :
    ∀ ev ∈ (buildErrorResponse env round c req).events, BuildEvent round c rp req ev := by
  have ht : ∀ s, BuildEvent round c rp req (.acquire (.scratch round c.fd s)) := .acquire
  have hg : ∀ s, BuildEvent round c rp req (.release (.scratch round c.fd s)) := .release
  simp only [buildErrorResponse]
  split_ifs <;> simp [ht, hg]

theorem buildResponseCgi_frame : BuildFrame c (buildResponseCgi env round c rp req).client := by
  simp only [buildResponseCgi]
  repeat' split
  all_goals exact ⟨rfl⟩

theorem buildResponseDir_frame : BuildFrame c (buildResponseDir env round c rp req).client := by
  simp only [buildResponseDir]
  repeat' split
  all_goals exact ⟨rfl⟩

theorem buildResponseFile_frame : BuildFrame c (buildResponseFile env round c rp req).client := by
  simp only [buildResponseFile]
  repeat' split
  all_goals exact ⟨rfl⟩

theorem buildByType_frame : BuildFrame c (buildByType env round c rp req).client := by
  simp only [buildByType]
  split
  · exact buildResponseCgi_frame env round c rp req
  · exact buildResponseDir_frame env round c rp req
  · exact buildResponseFile_frame env round c rp req
  · exact ⟨rfl⟩

theorem buildOkayResponse_frame : BuildFrame c (buildOkayResponse env round c rp req).client := by
  have h200 : BuildFrame c { c with respVal := .resp200 } := ⟨rfl⟩
  have hb := h200.trans (buildByType_frame env round { c with respVal := .resp200 } rp req)
  simp only [buildOkayResponse]
  split
  · have hr : BuildFrame _ (resetForError
        (buildByType env round { c with respVal := .resp200 } rp req).client) := ⟨rfl⟩
    exact (hb.trans hr).trans (buildErrorResponse_frame env round _ req)
  · exact hb

theorem buildResponseCgi_events (hp : rp.pathType = .isCgi) :
    ∀ ev ∈ (buildResponseCgi env round c rp req).events, BuildEvent round c rp req ev := by
  have ht : ∀ s, BuildEvent round c rp req (.acquire (.scratch round c.fd s)) := .acquire
  have hg : ∀ s, BuildEvent round c rp req (.release (.scratch round c.fd s)) := .release
  have hx : BuildEvent round c rp req (.execvp (execCall c rp req)) := .execvp hp
  simp only [buildResponseCgi]
  repeat' split
  all_goals simp [ht, hg, hx]

theorem buildResponseDir_events (hp : rp.pathType = .isDir) :
    ∀ ev ∈ (buildResponseDir env round c rp req).events, BuildEvent round c rp req ev := by
  have ht : ∀ s, BuildEvent round c rp req (.acquire (.scratch round c.fd s)) := .acquire
  have hg : ∀ s, BuildEvent round c rp req (.release (.scratch round c.fd s)) := .release
  have hx : BuildEvent round c rp req (.opendir req.path.tail) := by
    rw [← List.drop_one]
    exact .opendir hp
  simp only [buildResponseDir]
  repeat' split
  all_goals simp [ht, hg, hx]

theorem buildResponseFile_events :
    ∀ ev ∈ (buildResponseFile env round c rp req).events, BuildEvent round c rp req ev := by
  have ht : ∀ s, BuildEvent round c rp req (.acquire (.scratch round c.fd s)) := .acquire
  have hg : ∀ s, BuildEvent round c rp req (.release (.scratch round c.fd s)) := .release
  simp only [buildResponseFile]
  repeat' split
  all_goals simp [ht, hg]

theorem buildByType_events :
    ∀ ev ∈ (buildByType env round c rp req).events, BuildEvent round c rp req ev := by
  cases hp : rp.pathType with
  | isCgi =>
    simp only [buildByType, hp]
    exact buildResponseCgi_events env round c rp req hp
  | isDir =>
    simp only [buildByType, hp]
    exact buildResponseDir_events env round c rp req hp
  | isFile =>
    simp only [buildByType, hp]
    exact buildResponseFile_events env round c rp req
  | unknown => simp [buildByType, hp]

theorem BuildEvent.congr {round : ℕ} {c c' : Client} {rp : ResolvedPath} {req : Request}
    {ev : Event} (h : BuildEvent round c' rp req ev) (hf : c'.fd = c.fd)
    (ha : c'.clientAddr = c.clientAddr) : BuildEvent round c rp req ev := by
  cases h with
  | acquire s =>
    rw [hf]
    exact .acquire s
  | release s =>
    rw [hf]
    exact .release s
  | opendir hp => exact .opendir hp
  | execvp hp =>
    have he : execCall c' rp req = execCall c rp req := by simp only [execCall, ha]
    rw [he]
    exact .execvp hp

theorem buildOkayResponse_events :
    ∀ ev ∈ (buildOkayResponse env round c rp req).events, BuildEvent round c rp req ev := by
  have hb : ∀ ev ∈ (buildByType env round { c with respVal := .resp200 } rp req).events,
      BuildEvent round c rp req ev :=
    fun ev hev => (buildByType_events env round _ rp req ev hev).congr rfl rfl
  have hfr := (buildByType_frame env round { c with respVal := .resp200 } rp req).eq
  simp only [buildOkayResponse]
  split
  · intro ev hev
    rcases List.mem_append.mp hev with hev | hev
    · rcases List.mem_append.mp hev with hev | hev
      · exact hb ev hev
      · split_ifs at hev
        · rw [List.mem_singleton.mp hev]
          exact .release _
        · simp at hev
    · apply (buildErrorResponse_events env round _ rp req ev hev).congr
      · rw [hfr]
        rfl
      · rw [hfr]
        rfl
  · exact hb

end Builders

/-- The only members of the client that change between the end of the header
and the staged response. -/
structure ServeFrame (c c' : Client) : Prop where
  eq : c' = { c with
    respVal := c'.respVal
    filePtr := c'.filePtr
    fileSize := c'.fileSize
    outBuf := c'.outBuf
    outputLength := c'.outputLength
    headerLen := c'.headerLen
    bodyLen := c'.bodyLen }

theorem BuildFrame.serve {c c' c'' : Client} {r : ClientResponse}
    (h : ResolveFrame { c with respVal := r } c') (h' : BuildFrame c' c'') : ServeFrame c c'' := by
  constructor
  rw [h'.eq, h.eq]

section Respond

variable (env : Env) (round : ℕ) (c : Client) (buf : Bytes)

/-- What `parse_request` makes of the buffer. -/
def parsed : ParseResult :=
  parseRequest env.flags env.timeReceived buf c.headerLen .zero c.respVal
    (if env.flags.logging then logAppend .zero (c.clientAddr ++ ascii " ") else .zero)

/-- What `resolve_path` makes of an accepted request. -/
def resolved : ResolveResult :=
  resolvePath env round { c with respVal := (parsed env c buf).resp } (parsed env c buf).out .zero

variable {env round c buf}

theorem respond_refused (h : (parsed env c buf).ret ≠ 0) :
    respond env round c buf =
      let b := buildErrorResponse env round { c with respVal := (parsed env c buf).resp }
        (parsed env c buf).out
      ⟨b.client, .zero, (parsed env c buf).le, b.events⟩ := if_neg h

theorem respond_unresolved (h : (parsed env c buf).ret = 0)
    (hr : (resolved env round c buf).ret ≠ 0) :
    respond env round c buf =
      let b := buildErrorResponse env round (resolved env round c buf).client (parsed env c buf).out
      ⟨b.client, (resolved env round c buf).rp, (parsed env c buf).le,
        (resolved env round c buf).events ++ b.events⟩ := (if_pos h).trans (if_neg hr)

theorem respond_found (h : (parsed env c buf).ret = 0)
    (hr : (resolved env round c buf).ret = 0) :
    respond env round c buf =
      let b := buildOkayResponse env round (resolved env round c buf).client
        (resolved env round c buf).rp (parsed env c buf).out
      ⟨b.client, (resolved env round c buf).rp, (parsed env c buf).le,
        (resolved env round c buf).events ++ b.events⟩ := (if_pos h).trans (if_pos hr)

theorem respond_frame : ServeFrame c (respond env round c buf).client := by
  have hf := resolvePath_frame env round { c with respVal := (parsed env c buf).resp }
    (parsed env c buf).out .zero
  by_cases hp : (parsed env c buf).ret = 0
  · by_cases hr : (resolved env round c buf).ret = 0
    · rw [respond_found hp hr]
      exact BuildFrame.serve hf (buildOkayResponse_frame env round _ _ _)
    · rw [respond_unresolved hp hr]
      exact BuildFrame.serve hf (buildErrorResponse_frame env round _ _)
  · rw [respond_refused hp]
    exact BuildFrame.serve ⟨rfl⟩ (buildErrorResponse_frame env round _ _)

end Respond

/-- The events of the loop itself, as opposed to those of the handlers. -/
def Event.ofLoop : Event → Bool
  | .visit _ _ => true
  | .close _ => true
  | _ => false

/-- The events that come between the parser and the staged response. -/
def Event.ofServe : Event → Bool
  | .acquire _ => true
  | .release _ => true
  | .fopen _ => true
  | .opendir _ => true
  | .execvp _ => true
  | _ => false

theorem Event.not_ofLoop {ev : Event} (h : ev.ofServe = true) : ev.ofLoop = false := by
  cases ev with
  | visit p c => cases h
  | close c => cases h
  | _ => rfl

theorem BuildEvent.ofServe {round : ℕ} {c : Client} {rp : ResolvedPath} {req : Request}
    {ev : Event} (h : BuildEvent round c rp req ev) : ev.ofServe = true := by
  cases h <;> rfl

/-- What `resolve_path` does outside: it opens its target and the two index
files and keeps book of the handles. -/
inductive ResolveEvent (round fd : ℕ) (path : Bytes) : Event → Prop
  | target : ResolveEvent round fd path (.fopen path)
  | index : ResolveEvent round fd path (.fopen (getFilePath (getLastChar path) path dirIndex))
  | index2 : ResolveEvent round fd path (.fopen (getFilePath (getLastChar path) path dirIndex2))
  | acquire (site : Site) (node : Node) :
      ResolveEvent round fd path (.acquire (.file ⟨round, fd, site, node⟩))
  | release (site : Site) (node : Node) :
      ResolveEvent round fd path (.release (.file ⟨round, fd, site, node⟩))

theorem handleDirIndex_events (env : Env) (c : Client) (rp : ResolvedPath) (h : Handle) :
    ∀ ev ∈ (handleDirIndex env c rp h).events, ev = .release (.file h) := by
  simp only [handleDirIndex]
  split <;> simp

theorem resolvePath_events (env : Env) (round : ℕ) (c : Client) (req : Request)
    (rp : ResolvedPath) : ∀ ev ∈ (resolvePath env round c req rp).events,
      ResolveEvent round c.fd (localPath req.path) ev := by
  have ht : ResolveEvent round c.fd (localPath req.path) (.fopen _) := .target
  have hi : ResolveEvent round c.fd (localPath req.path) (.fopen _) := .index
  have hi2 : ResolveEvent round c.fd (localPath req.path) (.fopen _) := .index2
  have hd : ∀ rp site node, ∀ ev ∈ (handleDirIndex env c rp ⟨round, c.fd, site, node⟩).events,
      ResolveEvent round c.fd (localPath req.path) ev := by
    intro rp site node ev hev
    rw [handleDirIndex_events env c rp _ ev hev]
    exact .release site node
  simp only [resolvePath, resolveOpened, resolveDirectory]
  repeat' split
  all_goals
    simp only [List.cons_append, List.nil_append, List.mem_cons, forall_eq_or_imp, ht, hi, hi2,
      ResolveEvent.acquire, ResolveEvent.release, true_and]
  all_goals first | exact hd _ _ _ | simp

theorem ResolveEvent.ofServe {round fd : ℕ} {path : Bytes} {ev : Event}
    (h : ResolveEvent round fd path ev) : ev.ofServe = true := by
  cases h <;> rfl

theorem respond_ofServe (env : Env) (round : ℕ) (c : Client) (buf : Bytes) :
    ∀ ev ∈ (respond env round c buf).events, ev.ofServe = true := by
  have hf : ∀ ev ∈ (resolved env round c buf).events, ev.ofServe = true :=
    fun ev hev => (resolvePath_events env round _ _ _ ev hev).ofServe
  intro ev hev
  by_cases hp : (parsed env c buf).ret = 0
  · by_cases hr : (resolved env round c buf).ret = 0
    · rw [respond_found hp hr] at hev
      rcases List.mem_append.mp hev with h | h
      · exact hf ev h
      · exact (buildOkayResponse_events env round _ _ _ ev h).ofServe
    · rw [respond_unresolved hp hr] at hev
      rcases List.mem_append.mp hev with h | h
      · exact hf ev h
      · exact (buildErrorResponse_events env round _ .zero _ ev h).ofServe
  · rw [respond_refused hp] at hev
    exact (buildErrorResponse_events env round _ .zero _ ev hev).ofServe

theorem serve_events (env : Env) (round : ℕ) (c : Client) (p : PollFd) (buf : Bytes) :
    ∀ ev ∈ (serve env round c p buf).events, ev.ofServe = true ∨ ∃ line, ev = .logLine line := by
  intro ev hev
  simp only [serve, List.mem_append] at hev
  rcases hev with (h | h) | h
  · exact Or.inl (respond_ofServe env round c buf ev h)
  · simp only [logServed] at h
    split_ifs at h
    · simp only [doLogging, List.mem_singleton] at h
      exact Or.inr ⟨_, h⟩
    · simp at h
  · simp only [closeResolvePathPtr] at h
    split at h
    · rw [List.mem_singleton.mp h]
      exact Or.inl rfl
    · simp at h

theorem doRead_cases (env : Env) (round : ℕ) (rs : List RecvResult) (c : Client) (p : PollFd) :
    (doRead env round rs c p = ⟨(recvLoop c rs).1, p, []⟩ ∧
      ((recvLoop c rs).2 = false ∨ (recvLoop c rs).1.inBuf = none ∨
        (recvLoop c rs).1.inputLength = 0 ∨ ∃ buf, (recvLoop c rs).1.inBuf = some buf ∧
          strnstr buf headerEnd (recvLoop c rs).1.inputLength = none)) ∨
      ∃ buf k, (recvLoop c rs).2 = true ∧ (recvLoop c rs).1.inBuf = some buf ∧
        (recvLoop c rs).1.inputLength ≠ 0 ∧
        strnstr buf headerEnd (recvLoop c rs).1.inputLength = some k ∧
        doRead env round rs c p =
          serve env round { (recvLoop c rs).1 with headerLen := k + 4 } p buf := by
  simp only [doRead]
  generalize recvLoop c rs = d
  cases hd : d.2 with
  | false => simp
  | true =>
    cases hb : d.1.inBuf with
    | none => simp
    | some buf =>
      by_cases hl : d.1.inputLength = 0
      · simp [hl]
      · cases hk : strnstr buf headerEnd d.1.inputLength with
        | none => simp [hl, hk]
        | some k => simp [hl, hk]

theorem doRead_serve {env : Env} {round k : ℕ} {rs : List RecvResult} {c : Client} {p : PollFd}
    {buf : Bytes} (hl : (recvLoop c rs).2 = true) (hb : (recvLoop c rs).1.inBuf = some buf)
    (hk : strnstr buf headerEnd (recvLoop c rs).1.inputLength = some k) :
    doRead env round rs c p =
      serve env round { (recvLoop c rs).1 with headerLen := k + 4 } p buf := by
  have hpos : (recvLoop c rs).1.inputLength ≠ 0 := by
    intro h0
    rw [h0] at hk
    cases hk
  simp only [doRead, hl, hb, hpos, hk, if_false, Bool.true_eq_false]

theorem doRead_events (env : Env) (round : ℕ) (rs : List RecvResult) (c : Client) (p : PollFd) :
    ∀ ev ∈ (doRead env round rs c p).events,
      ev.ofServe = true ∨ ∃ line, ev = .logLine line := by
  rcases doRead_cases env round rs c p with ⟨h, -⟩ | ⟨buf, k, -, -, -, -, h⟩
  · rw [h]
    simp
  · rw [h]
    exact serve_events env round _ p buf

theorem doWrite_ofLoop {rs : List SendResult} {c : Client} {o : WriteOutcome}
    (h : doWrite rs c = .ok o) : ∀ ev ∈ o.events, ev.ofLoop = false := by
  intro ev hev
  rcases (doWrite_ok h).2.2.2 ev hev with ⟨bytes, rfl⟩ | rfl
  · rfl
  · rfl

end SimpleServer
