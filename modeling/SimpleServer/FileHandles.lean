import SimpleServer.ConnectionMap
import SimpleServer.Lib.Ledger

/-!
# Who closes the file handles

The handles that `resolve_path` opens are entered in a ledger together with
every `fclose`. The handle of a resolved file stands in the `ResolvedPath` and
in the `Client`: `do_read` closes it through the one, `close_conn` through the
other. A failing `fstat` closes a handle that the `ResolvedPath` still names,
and a refused CGI path drops its handle unclosed. Only a target that cannot be
opened and a directory without an index file leave the books in order.
-/

namespace SimpleServer

open CString FileTree SlotArray Ledger

def Event.handle : Event → Option (Ledger.Entry Handle)
  | .acquire (.file h) => some (.take h)
  | .release (.file h) => some (.give h)
  | _ => none

def handles (ev : List Event) : List (Ledger.Entry Handle) := ev.filterMap Event.handle

/-- Every handle is closed once or still open, and the open ones are those of
the clients. -/
def HandlesOwned (ev : List Event) (clients : List Client) : Prop :=
  ∃ held, replay [] (handles ev) = some held ∧
    ∀ h, h ∈ held ↔ ∃ c ∈ clients, c.filePtr = some h

/-- The outcomes of `fopen` and `fstat` for which `resolve_path` keeps no
handle: the target does not open, or it is a directory without an index. -/
def closesOwn (env : Env) (path : Bytes) : Bool :=
  let local' := localPath path
  match env.fopen .target local' with
  | .error _ => true
  | .ok q =>
    match env.fstat .target q with
    | none => false
    | some st =>
      st.isDir && !(pathIncludesCgi local' && !env.flags.c) &&
        (env.fopen .index (getFilePath (getLastChar local') local' dirIndex)).toOption.isNone &&
        (env.fopen .index2 (getFilePath (getLastChar local') local' dirIndex2)).toOption.isNone

section Handles

variable {ev ev' : List Event}

@[simp] theorem handles_nil : handles [] = [] := rfl

@[simp] theorem handles_append : handles (ev ++ ev') = handles ev ++ handles ev' :=
  List.filterMap_append

theorem handles_visit (p : PollFd) (c : Client) : handles (.visit p c :: ev) = handles ev := rfl

theorem handles_eq_nil (h : ∀ x ∈ ev, x.handle = none) : handles ev = [] :=
  List.filterMap_eq_nil_iff.mpr h

theorem handles_flatMap {α : Type} (l : List α) (f : α → List Event) :
    handles (l.flatMap f) = l.flatMap fun a => handles (f a) := by
  simp only [handles, List.filterMap_flatMap]

theorem BuildEvent.handle {round : ℕ} {c : Client} {rp : ResolvedPath} {req : Request}
    {x : Event} (h : BuildEvent round c rp req x) : x.handle = none := by
  cases h <;> rfl

theorem handles_closeResolvePathPtr (rp : ResolvedPath) :
    handles (closeResolvePathPtr rp).2 = rp.filePtr.toList.map .give := by
  simp only [closeResolvePathPtr]
  split
  · rename_i h hf
    rw [hf]
    rfl
  · rename_i hf
    rw [hf]
    rfl

theorem handles_closeEvents (c : Client) :
    handles (closeEvents c) = c.filePtr.toList.map .give := by
  simp only [closeEvents]
  cases c.filePtr <;> rfl

end Handles

/-- What becomes of the stream that is opened for a target: there is none, or
the `fstat` of it fails, or it is that of a script which may not be run, or it
is found. -/
inductive Fate where
  | nothing
  | unexamined
  | refused
  | shared
  deriving DecidableEq, Repr

def indexFate (env : Env) (path : Bytes) : Fate :=
  match env.fopen .index (getFilePath (getLastChar path) path dirIndex) with
  | .ok q => if (env.fstat .index q).isSome then .shared else .unexamined
  | .error _ =>
    match env.fopen .index2 (getFilePath (getLastChar path) path dirIndex2) with
    | .ok q => if (env.fstat .index2 q).isSome then .shared else .unexamined
    | .error _ => .nothing

def streamFate (env : Env) (path : Bytes) : Fate :=
  match env.fopen .target (localPath path) with
  | .error _ => .nothing
  | .ok q =>
    match env.fstat .target q with
    | none => .unexamined
    | some st =>
      if pathIncludesCgi (localPath path) = true ∧ env.flags.c = false then .refused
      else if st.isDir then indexFate env (localPath path) else .shared

section Resolve

variable {env : Env} {round : ℕ} {c : Client} {req : Request}

/-- What `resolve_path` leaves open, and who names it. -/
structure HandleState (held : List Handle) (rpPtr cPtr : Option Handle) (r : ResolveResult) :
    Prop where
  ledger : replay [] (handles r.events) = some held
  rp : r.rp.filePtr = rpPtr
  client : r.client.filePtr = cPtr

def Handle.Of (round fd : ℕ) (x : Handle) : Prop := x.round = round ∧ x.fd = fd

/-- Nothing is left over, or a handle is: one that is closed but still named by
the `ResolvedPath`, one that is open but named by nobody, or one that is open
and named twice. -/
inductive HandleFate (round : ℕ) (c : Client) (r : ResolveResult) : Fate → Prop
  | nothing : HandleState [] none c.filePtr r → HandleFate round c r .nothing
  | unexamined (x : Handle) : x.Of round c.fd → HandleState [] (some x) c.filePtr r →
      HandleFate round c r .unexamined
  | refused (x : Handle) : x.Of round c.fd → HandleState [x] none c.filePtr r →
      HandleFate round c r .refused
  | shared (x : Handle) : x.Of round c.fd → HandleState [x] (some x) (some x) r →
      HandleFate round c r .shared

theorem HandleFate.congr {c' : Client} {r : ResolveResult} {fate : Fate} (hfd : c.fd = c'.fd)
    (hptr : c.filePtr = c'.filePtr) (h : HandleFate round c r fate) :
    HandleFate round c' r fate := by
  cases h with
  | nothing hst => exact .nothing (hptr ▸ hst)
  | unexamined x hx hst => exact .unexamined x (hfd ▸ hx) (hptr ▸ hst)
  | refused x hx hst => exact .refused x (hfd ▸ hx) (hptr ▸ hst)
  | shared x hx hst => exact .shared x (hfd ▸ hx) hst

theorem handleDirIndex_fate {rp : ResolvedPath} {d h : Handle} (hne : d ≠ h)
    (hh : h.Of round c.fd) (pre : List Event)
    (hpre : handles pre = [.take d, .take h, .give d]) :
    HandleFate round c { handleDirIndex env c rp h with
      events := pre ++ (handleDirIndex env c rp h).events }
      (if (env.fstat h.site h.node).isSome then .shared else .unexamined) := by
  have hheld : replay [] (handles pre) = some [h] := hpre ▸ replay_exchange d hne
  cases hs : env.fstat h.site h.node with
  | none =>
    simp only [handleDirIndex, hs, Option.isSome_none, Bool.false_eq_true, if_false]
    apply HandleFate.unexamined h hh
    refine ⟨?_, rfl, rfl⟩
    rw [handles_append, replay_append_some hheld]
    exact replay_held_give h
  | some st =>
    simp only [handleDirIndex, hs, Option.isSome_some, if_true, List.append_nil]
    apply HandleFate.shared h hh
    exact ⟨hheld, rfl, rfl⟩

theorem resolveDirectory_fate {rp : ResolvedPath} {path : Bytes} {d : Handle} {st : Stat}
    (hd : d.site = .target) (pre : List Event)
    (hpre : handles pre = [.take d]) :
    HandleFate round c { resolveDirectory env round c rp path d st with
      events := pre ++ (resolveDirectory env round c rp path d st).events }
      (indexFate env path) := by
  have hne : ∀ (site : Site) (n : Node), site ≠ .target → d ≠ ⟨round, c.fd, site, n⟩ := by
    intro site n hs he
    rw [he] at hd
    exact hs hd
  cases hi : env.fopen .index (getFilePath (getLastChar path) path dirIndex) with
  | ok n =>
    simp only [resolveDirectory, indexFate, hi, ← List.append_assoc]
    apply handleDirIndex_fate (hne .index n (by decide)) ⟨rfl, rfl⟩
    rw [handles_append, hpre]
    rfl
  | error e =>
    cases hi2 : env.fopen .index2 (getFilePath (getLastChar path) path dirIndex2) with
    | ok n =>
      simp only [resolveDirectory, indexFate, hi, hi2, ← List.append_assoc]
      apply handleDirIndex_fate (hne .index2 n (by decide)) ⟨rfl, rfl⟩
      rw [handles_append, hpre]
      rfl
    | error e2 =>
      simp only [resolveDirectory, indexFate, hi, hi2]
      apply HandleFate.nothing
      refine ⟨?_, rfl, rfl⟩
      rw [handles_append, hpre]
      exact replay_take_give d

theorem resolvePath_fate :
    HandleFate round c (resolvePath env round c req .zero) (streamFate env req.path) := by
  cases ho : env.fopen .target (localPath req.path) with
  | error e =>
    simp only [streamFate, resolvePath, ho]
    exact .nothing ⟨rfl, rfl, rfl⟩
  | ok q =>
    cases hs : env.fstat .target q with
    | none =>
      simp only [streamFate, resolvePath, ho, hs]
      exact .unexamined _ ⟨rfl, rfl⟩ ⟨replay_take_give _, rfl, rfl⟩
    | some st =>
      simp only [streamFate, resolvePath, ho, hs, resolveOpened]
      by_cases hc : pathIncludesCgi (localPath req.path) = true ∧ env.flags.c = false
      · simp only [hc, and_self, if_true]
        exact .refused _ ⟨rfl, rfl⟩ ⟨replay_take _, rfl, rfl⟩
      simp only [hc, if_false]
      cases hd : st.isDir with
      | true =>
        simp only [if_true]
        exact resolveDirectory_fate rfl [_, _] rfl
      | false =>
        simp only [Bool.false_eq_true, if_false, List.append_nil]
        exact .shared _ ⟨rfl, rfl⟩ ⟨replay_take _, rfl, rfl⟩

theorem closesOwn_iff {path : Bytes} : closesOwn env path = true ↔
    streamFate env path = .nothing := by
  cases ho : env.fopen .target (localPath path) with
  | error e => simp [closesOwn, streamFate, ho]
  | ok q =>
    cases hs : env.fstat .target q with
    | none => simp [closesOwn, streamFate, ho, hs]
    | some st =>
      by_cases hc : pathIncludesCgi (localPath path) = true ∧ env.flags.c = false
      · simp [closesOwn, streamFate, ho, hs, hc]
      · have hallow : (!(pathIncludesCgi (localPath path) && !env.flags.c)) = true := by
          cases hp : pathIncludesCgi (localPath path) with
          | false => rfl
          | true => simpa [hp] using hc
        cases hd : st.isDir with
        | false => simp [closesOwn, streamFate, ho, hs, hc, hd]
        | true =>
          simp only [closesOwn, streamFate, ho, hs, hc, hd, hallow, indexFate, if_false, if_true,
            Bool.true_and, Bool.and_true]
          cases env.fopen .index (getFilePath (getLastChar (localPath path)) (localPath path)
              dirIndex) with
          | ok n =>
            simp only [Except.toOption, Option.isNone_some, Bool.false_and]
            split_ifs <;> simp
          | error e =>
            cases env.fopen .index2 (getFilePath (getLastChar (localPath path)) (localPath path)
                dirIndex2) with
            | ok n =>
              simp only [Except.toOption, Option.isNone_some, Bool.and_false]
              split_ifs <;> simp
            | error e2 => simp [Except.toOption]

end Resolve

/-- The target of the request that a visit of this entry accepts, if it accepts one. -/
def servedPath (r : Round) (e : Entry) : Option Bytes :=
  if e.1.revents &&& pollFailed = 0 ∧ e.1.revents &&& pollIn ≠ 0 ∧ e.2.state = .reading ∧
      (recvLoop e.2 (r.recvs e.2.fd)).2 = true then
    let c := (recvLoop e.2 (r.recvs e.2.fd)).1
    match c.inBuf with
    | none => none
    | some buf =>
      match strnstr buf headerEnd c.inputLength with
      | none => none
      | some k =>
        let p := parsed (r.env e.2.fd) { c with headerLen := k + 4 } buf
        if p.ret = 0 then some p.out.path else none
  else none

/-- If this visit serves a request, then one that keeps no handle. -/
def ServesClean (r : Round) (_round : ℕ) (e : Entry) : Prop :=
  ∀ path ∈ servedPath r e, closesOwn (r.env e.2.fd) path = true

instance (r : Round) (round : ℕ) (e : Entry) : Decidable (ServesClean r round e) :=
  inferInstanceAs (Decidable (∀ path ∈ servedPath r e, closesOwn (r.env e.2.fd) path = true))

section Serving

variable {env : Env} {round : ℕ} {c : Client} {p : PollFd} {buf : Bytes}

theorem BuildFrame.filePtr {c c' : Client} (h : BuildFrame c c') : c'.filePtr = c.filePtr := by
  rw [h.eq]

theorem ReadFrame.filePtr {c c' : Client} (h : ReadFrame c c') : c'.filePtr = c.filePtr := by
  rw [h.eq]

theorem ReadFrame.fd {c c' : Client} (h : ReadFrame c c') : c'.fd = c.fd := by
  rw [h.eq]

theorem handles_logServed (flags : Flags) (s : Served) : handles (logServed flags s) = [] := by
  simp only [logServed]
  split <;> rfl

theorem serve_handles :
    handles (serve env round c p buf).events =
      handles (respond env round c buf).events ++
        (respond env round c buf).rp.filePtr.toList.map .give := by
  rw [serve, handles_append, handles_append, handles_logServed, List.append_nil,
    handles_closeResolvePathPtr]

theorem resolved_fate : HandleFate round c (resolved env round c buf)
    (streamFate env (parsed env c buf).out.path) :=
  HandleFate.congr (c := { c with respVal := (parsed env c buf).resp }) rfl rfl resolvePath_fate

theorem serve_refused (h : (parsed env c buf).ret ≠ 0) :
    handles (serve env round c p buf).events = [] ∧
      (serve env round c p buf).client.filePtr = c.filePtr := by
  have hb := buildErrorResponse_events env round { c with respVal := (parsed env c buf).resp }
    .zero (parsed env c buf).out
  refine ⟨?_, ?_⟩
  · rw [serve_handles, respond_refused h]
    rw [handles_eq_nil fun x hx => (hb x hx).handle]
    rfl
  · change (respond env round c buf).client.filePtr = c.filePtr
    rw [respond_refused h]
    exact (buildErrorResponse_frame env round _ _).filePtr

theorem serve_accepted (h : (parsed env c buf).ret = 0) :
    handles (serve env round c p buf).events =
        handles (resolved env round c buf).events ++
          (resolved env round c buf).rp.filePtr.toList.map .give ∧
      (serve env round c p buf).client.filePtr = (resolved env round c buf).client.filePtr := by
  have hclient : (serve env round c p buf).client.filePtr =
      (respond env round c buf).client.filePtr := rfl
  rw [serve_handles, hclient]
  by_cases hr : (resolved env round c buf).ret = 0
  · have hb := buildOkayResponse_events env round (resolved env round c buf).client
      (resolved env round c buf).rp (parsed env c buf).out
    rw [respond_found h hr]
    refine ⟨?_, (buildOkayResponse_frame env round _ _ _).filePtr⟩
    rw [handles_append, handles_eq_nil (fun x hx => (hb x hx).handle), List.append_nil]
  · have hb := buildErrorResponse_events env round (resolved env round c buf).client
      (resolved env round c buf).rp (parsed env c buf).out
    rw [respond_unresolved h hr]
    refine ⟨?_, (buildErrorResponse_frame env round _ _).filePtr⟩
    rw [handles_append, handles_eq_nil (fun x hx => (hb x hx).handle), List.append_nil]

end Serving

section Visits

variable {r : Round} {round : ℕ} {e e' : Entry} {v : Visit}

theorem readEntry_unserved (round : ℕ) (hz : e.1.revents &&& pollFailed = 0)
    (h : servedPath r e = none) :
    handles (readEntry r round e).events = [] ∧
      (readEntry r round e).client.filePtr = e.2.filePtr := by
  have hptr : (recvLoop e.2 (r.recvs e.2.fd)).1.filePtr = e.2.filePtr :=
    (recvLoop_frame _ _).filePtr
  by_cases hr : e.1.revents &&& pollIn ≠ 0 ∧ e.2.state = .reading
  · have he : readEntry r round e =
        doRead (r.env e.2.fd) round (r.recvs e.2.fd) e.2 e.1 := if_pos hr
    rw [he]
    rcases doRead_cases (r.env e.2.fd) round (r.recvs e.2.fd) e.2 e.1 with
      ⟨hd, -⟩ | ⟨buf, k, hl, hb, -, hk, hd⟩
    · rw [hd]
      exact ⟨rfl, hptr⟩
    · have hp : (parsed (r.env e.2.fd)
          { (recvLoop e.2 (r.recvs e.2.fd)).1 with headerLen := k + 4 } buf).ret ≠ 0 := by
        intro hp
        rw [servedPath, if_pos ⟨hz, hr.1, hr.2, hl⟩] at h
        simp only [hb, hk] at h
        have hnone := (if_pos hp).symm.trans h
        cases hnone
      rw [hd]
      refine ⟨(serve_refused hp).1, (serve_refused hp).2.trans hptr⟩
  · have he : readEntry r round e = ⟨e.2, e.1, []⟩ := if_neg hr
    rw [he]
    exact ⟨rfl, rfl⟩

theorem readEntry_served {path : Bytes} (round : ℕ) (h : servedPath r e = some path) :
    e.1.revents &&& pollFailed = 0 ∧ e.1.revents ≠ 0 ∧
      (readEntry r round e).client.state = .sendingHeader ∧
      ∃ rr, HandleFate round e.2 rr (streamFate (r.env e.2.fd) path) ∧
        handles (readEntry r round e).events =
          handles rr.events ++ rr.rp.filePtr.toList.map .give ∧
        (readEntry r round e).client.filePtr = rr.client.filePtr := by
  simp only [servedPath] at h
  split at h
  · rename_i hcond
    obtain ⟨hz, hin, hst, hl⟩ := hcond
    split at h
    · cases h
    · rename_i buf hb
      split at h
      · cases h
      · rename_i k hk
        split at h
        · rename_i hp
          cases h
          have h0 : e.1.revents ≠ 0 := by
            intro h0
            rw [h0] at hin
            exact hin (by decide)
          have hframe := recvLoop_frame e.2 (r.recvs e.2.fd)
          have hfate : HandleFate round
              { (recvLoop e.2 (r.recvs e.2.fd)).1 with headerLen := k + 4 }
              (resolved (r.env e.2.fd) round _ buf) _ := resolved_fate
          have he : readEntry r round e = serve (r.env e.2.fd) round
              { (recvLoop e.2 (r.recvs e.2.fd)).1 with headerLen := k + 4 } e.1 buf :=
            (if_pos ⟨hin, hst⟩).trans (doRead_serve hl hb hk)
          rw [he]
          refine ⟨hz, h0, rfl, _, hfate.congr ?_ ?_, serve_accepted hp⟩
          · exact hframe.fd
          · exact hframe.filePtr
        · cases h
  · cases h

theorem writeEntry_filePtr {revents : PollMask} {c : Client} {w : WriteOutcome}
    (h : writeEntry r revents c = .ok w) :
    w.client.filePtr = c.filePtr ∧ handles w.events = [] := by
  simp only [writeEntry] at h
  split_ifs at h
  · obtain ⟨-, -, hp, hev⟩ := doWrite_ok h
    refine ⟨hp, handles_eq_nil fun x hx => ?_⟩
    rcases hev x hx with ⟨bytes, rfl⟩ | rfl
    · rfl
    · rfl
  · cases h
    exact ⟨rfl, rfl⟩

theorem visitEntry_handles (h : visitEntry r round e = .ok v) (h0 : e.1.revents ≠ 0)
    (hz : e.1.revents &&& pollFailed = 0) :
    (v.kept = none ∧ handles v.events = handles (readEntry r round e).events ++
      (readEntry r round e).client.filePtr.toList.map .give) ∨
    ∃ e', v.kept = some e' ∧ e'.2.filePtr = (readEntry r round e).client.filePtr ∧
      handles v.events = handles (readEntry r round e).events := by
  cases visitEntry_cases h with
  | idle h0' => exact absurd h0' h0
  | failed _ h1 => exact absurd hz h1
  | closing w _ _ hw hc =>
    obtain ⟨hp, hn⟩ := writeEntry_filePtr hw
    refine Or.inl ⟨rfl, ?_⟩
    rw [List.cons_append, handles_visit, handles_append, handles_append, hn, List.append_nil,
      handles_closeEvents, hp]
  | kept w _ _ hw hc =>
    obtain ⟨hp, hn⟩ := writeEntry_filePtr hw
    refine Or.inr ⟨_, rfl, hp, ?_⟩
    rw [handles_visit, handles_append, hn, List.append_nil]

theorem readEntry_clean (hf : e.2.filePtr = none) (hz : e.1.revents &&& pollFailed = 0)
    (hc : ServesClean r round e) :
    replay [] (handles (readEntry r round e).events) = some [] ∧
      (readEntry r round e).client.filePtr = none := by
  cases hs : servedPath r e with
  | none =>
    obtain ⟨h1, h2⟩ := readEntry_unserved round hz hs
    rw [h1]
    exact ⟨rfl, h2.trans hf⟩
  | some path =>
    obtain ⟨-, -, -, rr, hfate, h1, h2⟩ := readEntry_served round hs
    rw [closesOwn_iff.mp (hc path hs)] at hfate
    cases hfate with
    | nothing hst =>
      rw [h1, hst.rp]
      refine ⟨?_, h2.trans (hst.client.trans hf)⟩
      exact (replay_append_some hst.ledger).trans rfl

theorem visitEntry_clean (hf : e.2.filePtr = none) (hc : ServesClean r round e)
    (h : visitEntry r round e = .ok v) :
    replay [] (handles v.events) = some [] ∧ ∀ e', v.kept = some e' → e'.2.filePtr = none := by
  by_cases h0 : e.1.revents = 0
  · rw [visitEntry_idle h0] at h
    cases h
    refine ⟨rfl, fun e' hk => ?_⟩
    cases hk
    exact hf
  by_cases h1 : e.1.revents &&& pollFailed ≠ 0
  · rw [visitEntry_failed h0 h1] at h
    cases h
    refine ⟨?_, fun _ hk => by cases hk⟩
    rw [handles_visit, handles_closeEvents, hf]
    rfl
  obtain ⟨hled, hptr⟩ := readEntry_clean hf (not_not.mp h1) hc
  rcases visitEntry_handles h h0 (not_not.mp h1) with ⟨hk, hv⟩ | ⟨e₁, hk, hp, hv⟩
  · rw [hv, hptr, hk]
    exact ⟨(replay_append_some hled).trans rfl, fun _ hk => by cases hk⟩
  · rw [hv, hk]
    refine ⟨hled, fun e' he => ?_⟩
    cases he
    exact hp.trans hptr

/-- A visit that keeps a handle breaks the books: it closes one twice, or leaves
an open one without an owner or a client with a closed one. -/
theorem visitEntry_unclean (hf : e.2.filePtr = none) (hc : ¬ ServesClean r round e)
    (h : visitEntry r round e = .ok v) :
    ¬ HandlesOwned v.events (v.kept.toList.map Prod.snd) := by
  simp only [ServesClean, not_forall, closesOwn_iff] at hc
  obtain ⟨path, hs, hfound⟩ := hc
  obtain ⟨hz, h0, -, rr, hfate, h1, h2⟩ := readEntry_served round hs
  intro howned
  obtain ⟨held, hreplay, hheld⟩ := howned
  have hv := visitEntry_handles h h0 hz
  rw [h1, h2] at hv
  generalize streamFate (r.env e.2.fd) path = fate at hfate hfound
  cases hfate with
  | nothing => exact hfound rfl
  | unexamined x _ hst =>
    -- the `fstat` failure has closed what `close_resolve_path_ptr` closes again
    rw [hst.rp, hst.client, hf] at hv
    have hnone : replay [] (handles rr.events ++ [.give x]) = none :=
      (replay_append_some hst.ledger).trans (replay_give x)
    have hled : handles v.events = handles rr.events ++ [.give x] := by
      rcases hv with ⟨-, hv⟩ | ⟨e', -, -, hv⟩
      · rw [hv]
        exact List.append_nil _
      · exact hv
    rw [hled, hnone] at hreplay
    cases hreplay
  | refused x _ hst =>
    rw [hst.rp, hst.client, hf] at hv
    have hled : handles v.events = handles rr.events ∧
        ∀ c ∈ v.kept.toList.map Prod.snd, c.filePtr = none := by
      rcases hv with ⟨hk, hv⟩ | ⟨e', hk, hp, hv⟩
      · rw [hv, hk]
        simp
      · rw [hv, hk]
        simp [hp]
    rw [hled.1, hst.ledger] at hreplay
    cases hreplay
    obtain ⟨c, hm, hp⟩ := (hheld x).mp (List.mem_singleton.mpr rfl)
    rw [hled.2 c hm] at hp
    cases hp
  | shared x _ hst =>
    rw [hst.rp, hst.client] at hv
    have hclosed : replay [] (handles rr.events ++ [.give x]) = some [] :=
      (replay_append_some hst.ledger).trans (replay_held_give x)
    rcases hv with ⟨-, hv⟩ | ⟨e', hk, hp, hv⟩
    · -- `close_conn` closes it a second time
      have hnone : replay [] (handles v.events) = none := by
        rw [hv]
        exact (replay_append_some hclosed).trans (replay_give x)
      rw [hnone] at hreplay
      cases hreplay
    · -- the client stays, with a handle that is closed
      rw [hv] at hreplay
      have hnil : held = [] := Option.some.inj (hreplay.symm.trans hclosed)
      have hx := (hheld x).mpr ⟨e'.2, by simp [hk], hp⟩
      rw [hnil] at hx
      cases hx

end Visits

section Runs

variable {s s' : Server} {a : PollAnswer} {answers : List PollAnswer}

/-- Nothing is open, and no client names a handle. -/
structure NothingOpen (s : Server) : Prop where
  ledger : replay [] (handles s.trace) = some []
  clients : Entrywise (fun e => e.2.filePtr = none) s

theorem NothingOpen.owned (h : NothingOpen s) :
    HandlesOwned s.trace (s.entries.map Prod.snd) := by
  refine ⟨[], h.ledger, fun x => ⟨(fun hx => by cases hx), fun hx => ?_⟩⟩
  obtain ⟨c, hm, hp⟩ := hx
  obtain ⟨e, he, rfl⟩ := List.mem_map.mp hm
  rw [h.clients.all e he] at hp
  cases hp

theorem step_nothingOpen (hs : NothingOpen s) (hc : EachEntry ServesClean s a)
    (h : s.step a = .ok s') : NothingOpen s' := by
  have hfresh : ∀ a e, IsFresh a e → e.2.filePtr = none := by
    intro a e he
    obtain ⟨old, rfl⟩ := he
    rfl
  refine ⟨?_, step_entrywise hfresh (fun _ _ hq => hq)
    (fun _ _ _ _ _ hq hclean hv hk => (visitEntry_clean hq hclean hv).2 _ hk) hs.clients hc h⟩
  cases a with
  | eintr =>
    cases h
    exact hs.ledger
  | fatal => cases h
  | ready r =>
    obtain ⟨s₁, new, order, rfl, he⟩ := pollRound_ok hs.clients.pos hs.clients.least h
    change replay [] (handles s₁.trace) = some []
    rw [he.trace, handles_append, replay_append_some hs.ledger, handles_flatMap]
    apply replay_flatMap
    intro e ho
    obtain ⟨v, hv⟩ := he.visited e ho
    rw [(keptBy_ok hv).2]
    rcases (mem_order he).mp ho with hm | hm
    · obtain ⟨e₀, h0, m, hem⟩ := polled_entry hm
      have hptr : e.2.filePtr = none := hem ▸ hs.clients.all e₀ h0
      exact (visitEntry_clean hptr (hc e hm) hv).1
    · rw [visitEntry_idle (fresh_revents he.fresh e hm)] at hv
      cases hv
      rfl

theorem eventLoop_nothingOpen {pfds : ℕ → PollFd} {clients : ℕ → Client} {v4 v6 : Option ℕ}
    {s₀ : Server} (h0 : setup pfds clients v4 v6 = .ok s₀)
    (hc : Run.Along Server.step (EachEntry ServesClean) s₀ answers)
    (h : eventLoop s₀ answers = .ok s) : NothingOpen s := by
  refine Run.invariant (fun _ _ _ hs hc hstep => step_nothingOpen hs hc hstep) ⟨?_, ?_⟩ hc h
  · simp only [setup] at h0
    split_ifs at h0
    cases h0
    rfl
  · exact setup_entrywise h0

theorem shutdownLoop_handles {fuel i : ℕ} (hi : 0 < i)
    (hp : ∀ e ∈ live s.table.slot i s.table.fdCount, e.2.filePtr = none)
    (h : shutdownLoop fuel s i = .ok s') : handles s'.trace = handles s.trace := by
  induction fuel generalizing s with
  | zero =>
    simp only [shutdownLoop] at h
    split at h
    · cases h
    · cases h
      rfl
  | succ fuel ih =>
    simp only [shutdownLoop] at h
    split at h
    · rename_i hlt
      obtain ⟨hc, -, -, hl⟩ := closeConn_slot hi hlt s.table
        (Function.update_eq_self i s.table.slot).symm rfl
      have hfirst : (s.table.clients i).filePtr = none :=
        hp (s.table.slot i) (mem_live.mpr ⟨i, le_rfl, hlt, rfl⟩)
      have hrest : ∀ e ∈ live (s.close i).table.slot i (s.close i).table.fdCount,
          e.2.filePtr = none := by
        intro e he
        change e ∈ live (closeConn i s.table).1.slot i (closeConn i s.table).1.fdCount at he
        rw [hc, hl, (backToFront_perm _).mem_iff] at he
        apply hp e
        rw [live_cons hlt]
        exact List.mem_cons_of_mem _ he
      rw [ih hrest h]
      change handles (s.trace ++ (closeConn i s.table).2) = handles s.trace
      rw [handles_append, closeConn_events hi, handles_closeEvents, hfirst]
      exact List.append_nil _
    · cases h
      rfl

end Runs

/-- As long as only requests are served for which `resolve_path` keeps no
handle, every handle is closed exactly once, also behind the shutdown loop; a
visit that serves any other request breaks this. -/
theorem handles_owned_in_clean_runs {pfds : ℕ → PollFd} {clients : ℕ → Client}
    {v4 v6 : Option ℕ} {s₀ s : Server} {answers : List PollAnswer}
    (h0 : setup pfds clients v4 v6 = .ok s₀)
    (hc : Run.Along Server.step (EachEntry ServesClean) s₀ answers)
    (h : eventLoop s₀ answers = .ok s) :
    HandlesOwned s.trace (s.entries.map Prod.snd) ∧
    (∀ x, (handles s.trace).count (.take x) = (handles s.trace).count (.give x)) ∧
    (∀ fuel s', shutdownLoop fuel s s.numListeners = .ok s' → HandlesOwned s'.trace []) ∧
    ∀ r, ∀ e ∈ (s.polled r).entries, ¬ ServesClean r s.round e →
      ∀ v, visitEntry r s.round e = .ok v →
        ¬ HandlesOwned v.events (v.kept.toList.map Prod.snd) := by
  have hn := eventLoop_nothingOpen h0 hc h
  refine ⟨hn.owned, ?_, ?_, ?_⟩
  · intro x
    have hcount := replay_count hn.ledger x
    simpa using hcount
  · intro fuel s' hs
    have hled := shutdownLoop_handles hn.clients.pos hn.clients.all hs
    exact ⟨[], hled ▸ hn.ledger, by simp⟩
  · intro r e he hunclean v hv
    obtain ⟨e₀, hm, m, hem⟩ := polled_entry he
    exact visitEntry_unclean (hem ▸ hn.clients.all e₀ hm) hunclean hv

def serveOnce (env : Env) (rs : List RecvResult) : List PollAnswer :=
  [.ready (acceptRound [7]), .ready (readRound env rs), .ready (writeRound [.ret 1000])]

theorem handles_owned_in_clean_runs_listing :
    ∃ s, Run.Along Server.step (EachEntry ServesClean) startServer (serveOnce listingEnv getRoot) ∧
      eventLoop startServer (serveOnce listingEnv getRoot) = .ok s ∧
      (handles s.trace).length = 2 ∧ HandlesOwned s.trace (s.entries.map Prod.snd) := by
  have hc : Run.Along Server.step (EachEntry ServesClean) startServer
      (serveOnce listingEnv getRoot) := by decide +kernel
  obtain ⟨s, hs, ht⟩ := Run.arrives_iff.mp (show Run.arrives
    (fun s => decide ((handles s.trace).length = 2))
    (eventLoop startServer (serveOnce listingEnv getRoot)) = true by decide +kernel)
  exact ⟨s, hc, hs, of_decide_eq_true ht,
    (handles_owned_in_clean_runs setup_startServer hc hs).1⟩

def fileEnv : Env :=
  { emptyEnv with
    fopen := fun site _ => match site with
      | .target => .ok [ascii "a"]
      | _ => .error .ENOENT
    fstat := fun _ _ => some ⟨false, 3, 0⟩
    fread := fun _ => ascii "abc"
    gmtime := fun _ => some emptyEnv.timeReceived }

def getFile : List RecvResult :=
  [.data ⟨ascii "GET /a HTTP/1.0" ++ headerEnd, by decide, by decide⟩ true]

/-- A file that is fetched is closed twice, and in between its client waits for
`POLLOUT` with a closed handle. -/
theorem fetched_file_closed_twice :
    let x : Handle := ⟨1, 7, .target, [ascii "a"]⟩
    (∃ s, eventLoop startServer ((serveOnce fileEnv getFile).take 2) = .ok s ∧
      (∃ e ∈ s.entries, e.2.filePtr = some x) ∧ replay [] (handles s.trace) = some []) ∧
    ∃ s, eventLoop startServer (serveOnce fileEnv getFile) = .ok s ∧
      (handles s.trace).count (.take x) = 1 ∧ (handles s.trace).count (.give x) = 2 ∧
      ¬ HandlesOwned s.trace (s.entries.map Prod.snd) := by
  intro x
  obtain ⟨s, hs, ht⟩ := Run.arrives_iff.mp (show Run.arrives
    (fun s => decide ((∃ e ∈ s.entries, e.2.filePtr = some x) ∧
      replay [] (handles s.trace) = some []))
    (eventLoop startServer ((serveOnce fileEnv getFile).take 2)) = true by decide +kernel)
  obtain ⟨s', hs', ht'⟩ := Run.arrives_iff.mp (show Run.arrives
    (fun s => decide ((handles s.trace).count (.take x) = 1 ∧
      (handles s.trace).count (.give x) = 2 ∧ replay [] (handles s.trace) = none))
    (eventLoop startServer (serveOnce fileEnv getFile)) = true by decide +kernel)
  obtain ⟨h1, h2, hnone⟩ := of_decide_eq_true ht'
  refine ⟨⟨s, hs, of_decide_eq_true ht⟩, s', hs', h1, h2, fun howned => ?_⟩
  obtain ⟨held, hheld, -⟩ := howned
  rw [hnone] at hheld
  cases hheld

end SimpleServer
