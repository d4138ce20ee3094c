import SimpleServer.ClosedTwice
import SimpleServer.OutsideCalls

/-!
# What a process keeps

Pipe ends, children, `DIR`s, memory streams and heap blocks are taken while a
response is built, and the block of the response itself is freed with its
connection. Over a run these accounts never fall short: nothing is closed, freed
or waited for that is not there. What the process keeps beyond the responses
that wait to be sent is the work of scripts alone: the buffer of every output
that was sent, and every child that was started and whose output could not be
read, or that could not be waited for.

The streams of files are another matter. That of a script that may not be run is
never closed; one on which `fstat` fails, or that is served, is closed twice, the
second time with the connection.
-/

namespace SimpleServer

open CString FileTree SlotArray Ledger

/-- The block of an error response becomes `out_buf` like any other. -/
def Scratch.account (s : Scratch) : Scratch := if s = .errorBuf then .outBuf else s

/-- Things are told apart by what they are and for which connection they were
taken. The streams of files are counted apart, in `streamsOpened` and
`streamsClosed`. -/
def Resource.account : Resource → Option (ℕ × Scratch)
  | .file _ => none
  | .scratch _ fd s => some (fd, s.account)

def Event.account : Event → Option (Ledger.Entry (ℕ × Scratch))
  | .acquire r => r.account.map .take
  | .release r => r.account.map .give
  | .close c => if c.outBuf.isSome then some (.give (c.fd, .outBuf)) else none
  | _ => none

def accounts (ev : List Event) : List (Ledger.Entry (ℕ × Scratch)) := ev.filterMap Event.account

def outBlock (c : Client) : List (ℕ × Scratch) :=
  if c.outBuf.isSome then [(c.fd, .outBuf)] else []

def waiting (s : Server) : List (ℕ × Scratch) := s.entries.flatMap fun e => outBlock e.2

/-- What is left of a script when its request has been answered. -/
def scriptLeaks (env : Env) : List Scratch :=
  if env.flags.c = true ∧ env.cgi.pipe = true ∧ env.cgi.fork = true then
    if env.cgi.malloc = true ∧ (cgiCollect cgiCapacity [] env.cgi.reads).isSome = true ∧
        env.cgi.waitpid = true then
      if env.cgi.status = .exited 0 ∧ env.cgi.outMalloc = true then [.cgiResponse] else []
    else [.child]
  else []

def Processed.leaks (q : Processed) : List (ℕ × Scratch) :=
  let r := resolved q.env q.round q.client q.buf
  if (parsed q.env q.client q.buf).ret = 0 ∧ r.ret = 0 ∧ r.rp.pathType = .isCgi then
    (scriptLeaks q.env).map (Prod.mk q.client.fd)
  else []

/-- The streams of files, by the descriptors for which they were opened. -/
def streamsOpened (ev : List Event) : List ℕ := (taken (handles ev)).map Handle.fd

def streamsClosed (ev : List Event) : List ℕ := (given (handles ev)).map Handle.fd

/-- The stream that `file_ptr` names, open or not. -/
def namedStream (c : Client) : List ℕ := c.filePtr.toList.map Handle.fd

/-- The stream that was opened for an accepted request, if this was its fate. -/
def Processed.stream (fate : Fate) (q : Processed) : List ℕ :=
  if (parsed q.env q.client q.buf).ret = 0 ∧
      streamFate q.env (parsed q.env q.client q.buf).out.path = fate then [q.client.fd]
  else []

/-- The books of the streams: what was opened, and once more what could not be
examined or was served, has been closed, was refused or is named in the table. -/
def StreamBooks (s : Server) (qs : List Processed) : Prop :=
  (streamsOpened s.trace ++ qs.flatMap (Processed.stream .unexamined) ++
    qs.flatMap (Processed.stream .shared)).Perm
  (streamsClosed s.trace ++ qs.flatMap (Processed.stream .refused) ++
    s.entries.flatMap fun e => namedStream e.2)

section Builders

variable {env : Env} {round : ℕ} {c : Client} {rp : ResolvedPath} {req : Request}

theorem accounts_append (ev ev' : List Event) : accounts (ev ++ ev') = accounts ev ++ accounts ev' :=
  List.filterMap_append

theorem accounts_eq_nil {ev : List Event} (h : ∀ x ∈ ev, x.account = none) : accounts ev = [] :=
  List.filterMap_eq_nil_iff.mpr h

theorem accounts_built {ev : List Event} (h : ∀ x ∈ ev, BuildEvent round c rp req x) :
    accounts ev = (resources ev).filterMap (Entry.kind Resource.account) := by
  rw [accounts, resources, List.filterMap_filterMap]
  refine List.filterMap_congr fun x hx => ?_
  cases h x hx <;> rfl

theorem moves_of_left {ev : List Event} {left : List Scratch}
    (hev : ∀ x ∈ ev, BuildEvent round c rp req x)
    (h : replay [] (resources ev) = some (left.map (.scratch round c.fd))) :
    Moves (accounts ev) 0 (left.map fun s => (c.fd, s.account) : List (ℕ × Scratch)) := by
  have hm := Moves.of_replay Resource.account h
  rw [List.filterMap_map] at hm
  rw [accounts_built hev, ← List.filterMap_eq_map]
  exact hm

theorem outBlock_none (h : c.outBuf = none) : outBlock c = [] := by
  rw [outBlock, h]
  rfl

theorem outBlock_some (h : c.outBuf.isSome = true) : outBlock c = [(c.fd, .outBuf)] := if_pos h

theorem buildErrorResponse_moves (hc : c.outBuf = none) :
    Moves (accounts (buildErrorResponse env round c req).events) 0
      (outBlock (buildErrorResponse env round c req).client) := by
  have hmade : Moves (accounts [.acquire (.scratch round c.fd .errorStream),
      .acquire (.scratch round c.fd .errorBuf), .release (.scratch round c.fd .errorStream)]) 0
      {(c.fd, .outBuf)} := by
    have hstream := (Moves.take (c.fd, Scratch.outBuf)).frame {(c.fd, .errorStream)}
    have hclosed := (Moves.give (c.fd, Scratch.errorStream)).frame {(c.fd, .outBuf)}
    rw [zero_add] at hstream
    rw [zero_add, add_comm] at hclosed
    exact (Moves.take (c.fd, Scratch.errorStream)).append (hstream.append hclosed)
  simp only [buildErrorResponse]
  split_ifs
  · rw [outBlock_none hc]
    exact .nil _
  · rw [outBlock_none hc]
    exact .nil _
  · exact hmade
  · exact hmade

theorem cgiLeft_eq (hq : rp.queryString.length ≤ pathMax) :
    cgiLeft env rp = (if (cgiOutput env rp).isSome then [.outBuf] else []) ++ scriptLeaks env := by
  have hlong := Nat.not_lt.mpr hq
  by_cases hc : env.flags.c = false
  · simp [cgiLeft, cgiOutput, scriptLeaks, hc]
  by_cases hp : env.cgi.pipe = false
  · simp [cgiLeft, cgiOutput, scriptLeaks, hp]
  by_cases hf : env.cgi.fork = false
  · simp [cgiLeft, cgiOutput, scriptLeaks, hf, hlong]
  by_cases hm : env.cgi.malloc = false
  · simp [cgiLeft, cgiOutput, scriptLeaks, hc, hp, hf, hm, hlong]
  cases hread : cgiCollect cgiCapacity [] env.cgi.reads with
  | none => simp [cgiLeft, cgiOutput, scriptLeaks, hc, hp, hf, hm, hread, hlong]
  | some got =>
    by_cases hw : env.cgi.waitpid = false
    · simp [cgiLeft, cgiOutput, scriptLeaks, hc, hp, hf, hm, hread, hw, hlong]
    by_cases hs : env.cgi.status = .exited 0 ∧ env.cgi.outMalloc = true
    · simp [cgiLeft, cgiOutput, scriptLeaks, hc, hp, hf, hm, hread, hw, hs, hq, hlong]
    · simp [cgiLeft, cgiOutput, scriptLeaks, hc, hp, hf, hm, hread, hw, hs, hlong]

theorem Leaves.moves {b : BuildResult} {left leaks : List Scratch} (h : Leaves round c.fd b left)
    (hev : ∀ x ∈ b.events, BuildEvent round c rp req x) (hfd : b.client.fd = c.fd)
    (hleft : left = .outBuf :: leaks ∨ left = leaks ∧ .outBuf ∉ left) :
    Moves (accounts b.events) 0
      (outBlock b.client ++ leaks.map (Prod.mk c.fd) : List (ℕ × Scratch)) := by
  have hm := moves_of_left hev h.books
  have hsame : left.map (fun s => (c.fd, s.account)) = left.map (Prod.mk c.fd) := by
    refine List.map_congr_left fun s hs => ?_
    have hne : s ≠ .errorBuf := fun he => h.foreign.2 (he ▸ hs)
    rw [Scratch.account, if_neg hne]
  have hblock : outBlock b.client ++ leaks.map (Prod.mk c.fd) = left.map (Prod.mk c.fd) := by
    rcases hleft with rfl | ⟨rfl, hno⟩
    · have hsome : b.client.outBuf.isSome = true := by
        rcases h.ends with ⟨-, -, hno⟩ | ⟨-, hs, -⟩ | ⟨-, -, hnil⟩
        · exact absurd List.mem_cons_self hno
        · exact hs
        · cases hnil
      rw [outBlock_some hsome, hfd]
      rfl
    · have hnone : b.client.outBuf = none := by
        rcases h.ends with ⟨-, hn, -⟩ | ⟨-, -, hm⟩ | ⟨-, hn, -⟩
        · exact hn
        · exact absurd hm hno
        · exact hn
      rw [outBlock_none hnone]
      rfl
  rw [hblock, ← hsame]
  exact hm

def typeLeaks (env : Env) (rp : ResolvedPath) : List Scratch :=
  if rp.pathType = .isCgi then scriptLeaks env else []

theorem buildByType_left (hq : rp.queryString.length ≤ pathMax) (hc : c.outBuf = none) :
    ∃ left, Leaves round c.fd (buildByType env round c rp req) left ∧
      (left = .outBuf :: typeLeaks env rp ∨ left = typeLeaks env rp ∧ .outBuf ∉ left) := by
  have hother : ∀ left : List Scratch, left = [] ∨ left = [.outBuf] →
      left = [.outBuf] ∨ left = [] ∧ .outBuf ∉ left := by
    rintro left (rfl | rfl)
    · exact Or.inr ⟨rfl, List.not_mem_nil⟩
    · exact Or.inl rfl
  cases hp : rp.pathType with
  | isCgi =>
    simp only [buildByType, typeLeaks, hp, if_true]
    refine ⟨_, buildResponseCgi_leaves hp hc, ?_⟩
    have hleft : cgiLeft env rp = _ := cgiLeft_eq hq
    cases ho : cgiOutput env rp with
    | none =>
      rw [ho] at hleft
      exact Or.inr ⟨hleft, cgiLeft_of_failure ho⟩
    | some got =>
      rw [ho] at hleft
      exact Or.inl hleft
  | isDir =>
    simp only [buildByType, typeLeaks, hp]
    obtain ⟨left, hl, hleft⟩ :
        ∃ left, Leaves round c.fd (buildResponseDir env round c rp req) left ∧ _ :=
      buildResponseDir_leaves hc
    exact ⟨left, hl, hother left hleft⟩
  | isFile =>
    simp only [buildByType, typeLeaks, hp]
    obtain ⟨left, hl, hleft⟩ :
        ∃ left, Leaves round c.fd (buildResponseFile env round c rp req) left ∧ _ :=
      buildResponseFile_leaves hc
    exact ⟨left, hl, hother left hleft⟩
  | unknown =>
    simp only [buildByType, typeLeaks, hp]
    exact ⟨[], ⟨rfl, by simp, Or.inr (Or.inr ⟨rfl, hc, rfl⟩)⟩, hother [] (Or.inl rfl)⟩

theorem buildByType_moves (hq : rp.queryString.length ≤ pathMax) (hc : c.outBuf = none) :
    Moves (accounts (buildByType env round c rp req).events) 0
      (outBlock (buildByType env round c rp req).client ++
        (typeLeaks env rp).map (Prod.mk c.fd) : List (ℕ × Scratch)) := by
  obtain ⟨left, hl, hleft⟩ :
      ∃ left, Leaves round c.fd (buildByType env round c rp req) left ∧ _ := buildByType_left hq hc
  refine hl.moves (buildByType_events env round c rp req) ?_ hleft
  rw [(buildByType_frame env round c rp req).eq]

theorem buildOkayResponse_moves (hq : rp.queryString.length ≤ pathMax) (hc : c.outBuf = none) :
    Moves (accounts (buildOkayResponse env round c rp req).events) 0
      (outBlock (buildOkayResponse env round c rp req).client ++
        (typeLeaks env rp).map (Prod.mk c.fd) : List (ℕ × Scratch)) := by
  have hnone : ({ c with respVal := .resp200 } : Client).outBuf = none := hc
  have hmoves : Moves (accounts (buildByType env round { c with respVal := .resp200 } rp req).events)
      0 _ := buildByType_moves hq hnone
  have hfailed : (buildByType env round { c with respVal := .resp200 } rp req).ret = 0 ∨ _ :=
    buildByType_unstaged hnone
  simp only [buildOkayResponse]
  generalize buildByType env round { c with respVal := .resp200 } rp req = b at hmoves hfailed ⊢
  by_cases hneg : b.ret < 0
  · have hout : b.client.outBuf = none := by
      refine hfailed.resolve_left fun h0 => ?_
      rw [h0] at hneg
      cases hneg
    have herror : Moves
        (accounts (buildErrorResponse env round (resetForError b.client) req).events) 0
        (outBlock (buildErrorResponse env round (resetForError b.client) req).client) :=
      buildErrorResponse_moves hout
    -- the error response is made beside what the builder has left
    have hframe := herror.frame ((typeLeaks env rp).map (Prod.mk c.fd) : List (ℕ × Scratch))
    rw [zero_add, Multiset.coe_add] at hframe
    rw [outBlock_none hout, List.nil_append] at hmoves
    simp only [hneg, if_true, hout, Option.isSome_none, Bool.false_eq_true, if_false,
      List.append_nil, accounts_append]
    exact hmoves.append hframe
  · simp only [hneg, if_false]
    exact hmoves

end Builders

section Requests

variable {env : Env} {round : ℕ} {c : Client} {rp : ResolvedPath} {req : Request} {buf : Bytes}

theorem accounts_resolvePath : accounts (resolvePath env round c req rp).events = [] := by
  refine accounts_eq_nil fun x hx => ?_
  cases resolvePath_events env round c req rp x hx <;> rfl

theorem respond_moves (q : Processed) (hc : q.client.outBuf = none) :
    Moves (accounts (respond q.env q.round q.client q.buf).events) 0
      (outBlock (respond q.env q.round q.client q.buf).client ++ q.leaks : List (ℕ × Scratch)) := by
  have hres : accounts (resolved q.env q.round q.client q.buf).events = [] := accounts_resolvePath
  have hf : ResolveFrame _ (resolved q.env q.round q.client q.buf).client :=
    resolvePath_frame q.env q.round _ _ _
  have hnone : (resolved q.env q.round q.client q.buf).client.outBuf = none := by
    rw [hf.eq]
    exact hc
  have hfd : (resolved q.env q.round q.client q.buf).client.fd = q.client.fd := by rw [hf.eq]
  simp only [Processed.leaks]
  by_cases hp : (parsed q.env q.client q.buf).ret = 0
  · by_cases hr : (resolved q.env q.round q.client q.buf).ret = 0
    · have hleaks : (if (parsed q.env q.client q.buf).ret = 0 ∧
          (resolved q.env q.round q.client q.buf).ret = 0 ∧
          (resolved q.env q.round q.client q.buf).rp.pathType = .isCgi then
          (scriptLeaks q.env).map (Prod.mk q.client.fd) else []) =
          (typeLeaks q.env (resolved q.env q.round q.client q.buf).rp).map
            (Prod.mk (resolved q.env q.round q.client q.buf).client.fd) := by
        rw [typeLeaks, hfd]
        simp only [hp, hr, true_and]
        split_ifs <;> rfl
      rw [hleaks, respond_found hp hr]
      simp only [accounts_append, hres, List.nil_append]
      exact buildOkayResponse_moves resolved_query hnone
    · rw [if_neg fun h => hr h.2.1, List.append_nil, respond_unresolved hp hr]
      simp only [accounts_append, hres, List.nil_append]
      exact buildErrorResponse_moves hnone
  · rw [if_neg fun h => hp h.1, List.append_nil, respond_refused hp]
    exact buildErrorResponse_moves hc

theorem serve_moves (q : Processed) (hc : q.client.outBuf = none) :
    Moves (accounts (serve q.env q.round q.client q.pollFd q.buf).events) 0
      (outBlock q.done ++ q.leaks : List (ℕ × Scratch)) := by
  have hlog : ∀ served : Served, accounts (logServed q.env.flags served) = [] := by
    intro served
    simp only [logServed]
    split <;> rfl
  have hclose : ∀ rp : ResolvedPath, accounts (closeResolvePathPtr rp).2 = [] := by
    intro rp
    simp only [closeResolvePathPtr]
    split <;> rfl
  simp only [serve, accounts_append, hlog, hclose, List.append_nil]
  exact respond_moves q hc

end Requests

section Visits

variable {r : Round} {round : ℕ} {e : Entry} {v : Visit}

theorem accounts_visit (p : PollFd) (c : Client) (ev : List Event) :
    accounts (.visit p c :: ev) = accounts ev := rfl

theorem closeEvents_moves (c : Client) : Moves (accounts (closeEvents c)) (outBlock c) 0 := by
  have hgive : accounts (closeEvents c) = (outBlock c).map .give := by
    rw [closeEvents, outBlock]
    cases ho : c.outBuf.isSome <;> cases c.filePtr <;>
      simp [accounts, Event.account, Resource.account, ho]
  rw [hgive, outBlock]
  split
  · exact Moves.give _
  · exact .nil _

theorem readEntry_moves (h : Staging e.2) (hz : e.1.revents &&& pollFailed = 0) :
    Moves (accounts (readEntry r round e).events) (outBlock e.2)
      (outBlock (readEntry r round e).client ++
        (processedBy r round e).toList.flatMap Processed.leaks : List (ℕ × Scratch)) := by
  by_cases hin : e.1.revents &&& pollIn ≠ 0 ∧ e.2.state = .reading
  · have hnot : e.2.state ≠ .sendingHeader := by
      rw [hin.2]
      decide
    have hnone := h.unstaged hnot
    rw [readEntry, if_pos hin, processedBy, if_pos ⟨hz, hin⟩, doRead_requestIn,
      outBlock_none hnone]
    cases hreq : requestIn (r.recvs e.2.fd) e.2 with
    | none =>
      have hout := (congrArg Client.outBuf (recvLoop_frame e.2 (r.recvs e.2.fd)).eq).trans hnone
      simp only [outBlock_none hout]
      exact .nil _
    | some q =>
      have hq : requestIn (r.recvs e.2.fd) e.2 = some (q.1, q.2) := hreq
      rw [Option.map_some, Option.toList_some, List.flatMap_singleton]
      exact serve_moves ⟨r.env e.2.fd, round, q.1, e.1, q.2⟩ ((requestIn_frame hq).2.trans hnone)
  · rw [readEntry, if_neg hin, processedBy, if_neg fun h => hin h.2]
    simp only [Option.toList_none, List.flatMap_nil, List.append_nil]
    exact .nil _

theorem writeEntry_moves {revents : PollMask} {c : Client} {w : WriteOutcome} (h : Staging c)
    (hw : writeEntry r revents c = .ok w) :
    accounts w.events = [] ∧ outBlock w.client = outBlock c := by
  constructor
  · simp only [writeEntry] at hw
    split_ifs at hw
    · refine accounts_eq_nil fun ev hev => ?_
      rcases (doWrite_ok hw).2.2.2 ev hev with ⟨bytes, rfl⟩ | rfl <;> rfl
    · cases hw
      rfl
  · cases writeEntry_staging h hw with
    | untouched => rfl
    | empty hst => rfl
    | delivered _ out hst ho hclient hbytes hshut =>
      obtain ⟨sent, hc⟩ := hclient
      rw [hc]
      rfl

theorem visitEntry_moves (h : Staging e.2) (hv : visitEntry r round e = .ok v) :
    Moves (accounts v.events) (outBlock e.2)
      (v.kept.toList.flatMap (fun e => outBlock e.2) ++
        (processedBy r round e).toList.flatMap Processed.leaks : List (ℕ × Scratch)) := by
  cases visitEntry_cases hv with
  | idle h0 =>
    rw [processedBy_idle h0]
    simp only [Option.toList_some, Option.toList_none, List.flatMap_nil, List.append_nil,
      List.flatMap_singleton]
    exact .nil _
  | failed h0 h1 =>
    rw [processedBy, if_neg fun h => h1 h.1, accounts_visit]
    exact closeEvents_moves e.2
  | closing w h0 hz hw hc =>
    have hread : Moves (accounts (readEntry r round e).events) (outBlock e.2) _ :=
      readEntry_moves h hz
    obtain ⟨hevents, hblock⟩ := writeEntry_moves (readEntry_pending r round h hz e.1).1 hw
    have hfreed := (closeEvents_moves w.client).frame
      ((processedBy r round e).toList.flatMap Processed.leaks : List (ℕ × Scratch))
    rw [hblock, zero_add, Multiset.coe_add] at hfreed
    rw [List.cons_append, accounts_visit, accounts_append, accounts_append, hevents, List.append_nil]
    exact hread.append hfreed
  | kept w h0 hz hw hc =>
    obtain ⟨hevents, hblock⟩ := writeEntry_moves (readEntry_pending r round h hz e.1).1 hw
    simp only [accounts_visit, accounts_append, hevents, List.append_nil, Option.toList_some,
      List.flatMap_singleton, hblock]
    exact readEntry_moves h hz

end Visits

section Streams

variable {r : Round} {round : ℕ} {e : Entry} {v : Visit} {ev ev' : List Event}

@[simp] theorem streamsOpened_append :
    streamsOpened (ev ++ ev') = streamsOpened ev ++ streamsOpened ev' := by
  simp only [streamsOpened, handles_append, taken_append, List.map_append]

@[simp] theorem streamsClosed_append :
    streamsClosed (ev ++ ev') = streamsClosed ev ++ streamsClosed ev' := by
  simp only [streamsClosed, handles_append, given_append, List.map_append]

theorem streams_nil (h : handles ev = []) : streamsOpened ev = [] ∧ streamsClosed ev = [] := by
  rw [streamsOpened, streamsClosed, h]
  exact ⟨rfl, rfl⟩

theorem serve_streams (q : Processed) (hf : q.client.filePtr = none) :
    let ev := (serve q.env q.round q.client q.pollFd q.buf).events
    (streamsOpened ev ++ q.stream .unexamined ++ q.stream .shared).Perm
      (streamsClosed ev ++ q.stream .refused ++ namedStream q.done) := by
  intro ev
  by_cases hp : (parsed q.env q.client q.buf).ret = 0
  · have hfate : HandleFate q.round q.client (resolved q.env q.round q.client q.buf)
        (streamFate q.env (parsed q.env q.client q.buf).out.path) := resolved_fate
    obtain ⟨hled, hptr⟩ : handles ev = _ ∧ q.done.filePtr = _ := serve_accepted hp
    have hopen : streamsOpened ev =
        (taken (handles (resolved q.env q.round q.client q.buf).events)).map Handle.fd := by
      rw [streamsOpened, hled, taken_append, taken_gives, List.append_nil]
    have hclose : streamsClosed ev =
        (given (handles (resolved q.env q.round q.client q.buf).events)).map Handle.fd ++
          (resolved q.env q.round q.client q.buf).rp.filePtr.toList.map Handle.fd := by
      rw [streamsClosed, hled, given_append, given_gives, List.map_append]
    simp only [Processed.stream, hp, true_and, namedStream, hptr, hopen, hclose]
    generalize streamFate q.env (parsed q.env q.client q.buf).out.path = fate at hfate ⊢
    have hcount : ∀ {held rpPtr cPtr} (fd : ℕ),
        HandleState held rpPtr cPtr (resolved q.env q.round q.client q.buf) → _ :=
      fun fd hst => List.perm_iff_count.mp ((replay_perm hst.ledger).map Handle.fd) fd
    refine List.perm_iff_count.mpr fun fd => ?_
    cases hfate with
    | nothing hst =>
      have hbooks := hcount fd hst
      simp [hst.rp, hst.client, hf] at hbooks ⊢
      omega
    | unexamined x hof hst =>
      have hbooks := hcount fd hst
      simp [hst.rp, hst.client, hf, hof.2, List.count_append] at hbooks ⊢
      omega
    | refused x hof hst =>
      have hbooks := hcount fd hst
      simp [hst.rp, hst.client, hf, hof.2, List.count_append, List.count_cons] at hbooks ⊢
      omega
    | shared x hof hst =>
      have hbooks := hcount fd hst
      simp [hst.rp, hst.client, hof.2, List.count_append, List.count_cons] at hbooks ⊢
      omega
  · obtain ⟨hled, hptr⟩ : handles ev = _ ∧ q.done.filePtr = _ := serve_refused hp
    obtain ⟨hopen, hclose⟩ := streams_nil hled
    simp [Processed.stream, hp, namedStream, hptr, hf, hopen, hclose]

theorem readEntry_streams (hown : NamesOwn e) (hz : e.1.revents &&& pollFailed = 0) :
    let ev := (readEntry r round e).events
    let qs := (processedBy r round e).toList
    (namedStream e.2 ++ (streamsOpened ev ++ qs.flatMap (Processed.stream .unexamined) ++
        qs.flatMap (Processed.stream .shared))).Perm
      (streamsClosed ev ++ qs.flatMap (Processed.stream .refused) ++
        namedStream (readEntry r round e).client) := by
  intro ev qs
  by_cases hin : e.1.revents &&& pollIn ≠ 0 ∧ e.2.state = .reading
  · have hnone := hown.reading hin.2
    have hptr := (recvLoop_frame e.2 (r.recvs e.2.fd)).filePtr.trans hnone
    have hread : readEntry r round e =
        doRead (r.env e.2.fd) round (r.recvs e.2.fd) e.2 e.1 := if_pos hin
    have hproc : processedBy r round e = _ := if_pos ⟨hz, hin⟩
    rw [doRead_requestIn] at hread
    simp only [ev, qs, hread, hproc, namedStream, hnone]
    cases hreq : requestIn (r.recvs e.2.fd) e.2 with
    | none =>
      simp only [hptr]
      exact List.Perm.refl _
    | some q =>
      have hq : requestIn (r.recvs e.2.fd) e.2 = some (q.1, q.2) := hreq
      obtain ⟨k, -, hclient⟩ := requestIn_found hq
      have hserve := serve_streams ⟨r.env e.2.fd, round, q.1, e.1, q.2⟩
        (by rw [hclient]; exact hptr)
      simp only [Option.map_some, Option.toList_some, Option.toList_none, List.map_nil,
        List.nil_append, List.flatMap_singleton]
      exact hserve
  · have hread : readEntry r round e = ⟨e.2, e.1, []⟩ := if_neg hin
    have hproc : processedBy r round e = none := if_neg fun h => hin h.2
    simp only [ev, qs, hread, hproc, Option.toList_none, List.flatMap_nil, List.append_nil]
    exact (List.append_nil (namedStream e.2)).symm ▸ List.Perm.refl _

theorem visitEntry_streams (hown : NamesOwn e) (hv : visitEntry r round e = .ok v) :
    let qs := (processedBy r round e).toList
    (namedStream e.2 ++ (streamsOpened v.events ++ qs.flatMap (Processed.stream .unexamined) ++
        qs.flatMap (Processed.stream .shared))).Perm
      (streamsClosed v.events ++ qs.flatMap (Processed.stream .refused) ++
        v.kept.toList.flatMap fun e => namedStream e.2) := by
  intro qs
  by_cases h0 : e.1.revents = 0
  · have hproc : qs = [] := congrArg Option.toList (processedBy_idle h0)
    rw [visitEntry_idle h0] at hv
    cases hv
    rw [hproc]
    exact (List.append_nil (namedStream e.2)).symm ▸ List.Perm.refl _
  by_cases h1 : e.1.revents &&& pollFailed ≠ 0
  · have hproc : qs = [] := congrArg Option.toList (if_neg fun h => h1 h.1)
    rw [visitEntry_failed h0 h1] at hv
    cases hv
    simp [hproc, streamsOpened, streamsClosed, handles_visit, handles_closeEvents, namedStream]
  have hread := @readEntry_streams r round e hown (not_not.mp h1)
  rcases visitEntry_handles hv h0 (not_not.mp h1) with ⟨hk, hled⟩ | ⟨e', hk, hptr, hled⟩
  · have hopen : streamsOpened v.events = streamsOpened (readEntry r round e).events := by
      rw [streamsOpened, hled, taken_append, taken_gives, List.append_nil, streamsOpened]
    have hclose : streamsClosed v.events = streamsClosed (readEntry r round e).events ++
        namedStream (readEntry r round e).client := by
      rw [streamsClosed, hled, given_append, given_gives, List.map_append]
      rfl
    rw [hopen, hclose, hk, Option.toList_none, List.flatMap_nil, List.append_nil]
    refine hread.trans ?_
    rw [List.append_assoc, List.append_assoc]
    exact List.perm_append_comm.append_left _
  · have hsame : namedStream e'.2 = namedStream (readEntry r round e).client :=
      congrArg (fun p : Option Handle => p.toList.map Handle.fd) hptr
    rw [hk, Option.toList_some, List.flatMap_singleton, hsame, streamsOpened, streamsClosed, hled]
    exact hread

end Streams

section Runs

variable {r : Round} {s s' : Server} {new order : List Entry} {answers : List PollAnswer}

theorem round_waiting (he : RoundEffect r s new order s') :
    (order.flatMap fun e => outBlock e.2 : List (ℕ × Scratch)).Perm (waiting s) := by
  have hfresh : (new.flatMap fun e => outBlock e.2) = [] := by
    refine List.flatMap_eq_nil_iff.mpr (fresh_all (fun a _ e hf => ?_) he.fresh)
    obtain ⟨old, rfl⟩ := hf
    rfl
  have hperm := he.sweep.perm.flatMap_right fun e => outBlock e.2
  rw [List.flatMap_append, hfresh, List.append_nil,
    polled_flatMap (f := fun e : Entry => outBlock e.2) (fun _ _ => rfl)] at hperm
  exact hperm

theorem round_moves (he : RoundEffect r s new order s') (hb : Books s) :
    Moves (accounts (order.flatMap (eventsOf r s.round))) (waiting s) (waiting s' ++
      (order.filterMap (processedBy r s.round)).flatMap Processed.leaks : List (ℕ × Scratch)) := by
  have hvisit : ∀ e ∈ order, Moves (accounts (eventsOf r s.round e)) (outBlock e.2)
      ((keptBy r s.round e).toList.flatMap (fun e => outBlock e.2) ++
        (processedBy r s.round e).toList.flatMap Processed.leaks : List (ℕ × Scratch)) := by
    intro e ho
    obtain ⟨v, hv⟩ := he.visited e ho
    rw [(keptBy_ok hv).1, (keptBy_ok hv).2]
    exact visitEntry_moves (round_staging he hb e ho).1 hv
  have hmoves := Moves.flatMap hvisit
  have hevents : accounts (order.flatMap (eventsOf r s.round)) =
      order.flatMap fun e => accounts (eventsOf r s.round e) := List.filterMap_flatMap
  have hleft : waiting s' = order.flatMap fun e =>
      (keptBy r s.round e).toList.flatMap fun e => outBlock e.2 := by
    rw [waiting, he.left, List.filterMap_eq_flatMap_toList, List.flatMap_assoc]
  have hleaks : (order.filterMap (processedBy r s.round)).flatMap Processed.leaks =
      order.flatMap fun e => (processedBy r s.round e).toList.flatMap Processed.leaks := by
    rw [List.filterMap_eq_flatMap_toList, List.flatMap_assoc]
  rw [hevents, hleft, hleaks, ← Multiset.coe_eq_coe.mpr (round_waiting he),
    Multiset.coe_eq_coe.mpr (List.flatMap_append_perm _ _ _)]
  exact hmoves

theorem eventLoop_moves {past : Multiset (ℕ × Scratch)} (hb : Books s)
    (hm : Moves (accounts s.trace) 0 (waiting s + past)) (h : eventLoop s answers = .ok s') :
    Moves (accounts s'.trace) 0
      (waiting s' + (past + ((processedRun s answers).flatMap Processed.leaks :
        List (ℕ × Scratch)))) := by
  induction answers generalizing s past with
  | nil =>
    cases h
    rw [processedRun, List.flatMap_nil, Multiset.coe_nil, add_zero]
    exact hm
  | cons a answers ih =>
    obtain ⟨s₁, h1, h2⟩ := Run.run_cons_ok h
    cases a with
    | eintr =>
      cases h1
      exact ih hb hm h2
    | fatal => cases h1
    | ready r =>
      obtain ⟨t, new, order, rfl, he⟩ := pollRound_ok hb.clients.pos hb.clients.least h1
      have hround : Moves (accounts t.trace) 0 (waiting t + (past +
          ((order.filterMap (processedBy r s.round)).flatMap Processed.leaks :
            List (ℕ × Scratch)))) := by
        have hframe := (round_moves he hb).frame past
        rw [← Multiset.coe_add, add_right_comm, add_assoc] at hframe
        rw [he.trace, accounts_append]
        exact hm.append hframe
      rw [processedRun_ready he h1, List.flatMap_append, ← Multiset.coe_add, ← add_assoc past]
      exact ih ((round_books he hb).tick _) hround h2

theorem drain_moves {order : List Entry} (h : DrainEffect s s.numListeners order s') :
    Moves (accounts (order.flatMap fun e => closeEvents e.2)) (waiting s) 0 := by
  have hone : ∀ e ∈ order, Moves (accounts (closeEvents e.2)) (outBlock e.2)
      ([] : List (ℕ × Scratch)) := fun e _ => closeEvents_moves e.2
  have hmoves := Moves.flatMap hone
  have hnil : (order.flatMap fun _ => ([] : List (ℕ × Scratch))) = [] :=
    List.flatMap_eq_nil_iff.mpr fun _ _ => rfl
  have hperm : (order.flatMap fun e => outBlock e.2).Perm (waiting s) := h.perm.flatMap_right _
  rw [hnil, Multiset.coe_eq_coe.mpr hperm] at hmoves
  rw [accounts, List.filterMap_flatMap]
  exact hmoves

theorem fresh_own (a : Accepted) (e : Entry) (hf : IsFresh a e) : NamesOwn e := by
  obtain ⟨old, rfl⟩ := hf
  exact fun x hx => by cases hx

theorem round_streams {past : List Processed} (he : RoundEffect r s new order s')
    (hs : Entrywise NamesOwn s) (hb : StreamBooks s past) :
    StreamBooks s' (past ++ order.filterMap (processedBy r s.round)) := by
  have hfresh : (new.flatMap fun e => namedStream e.2) = [] := by
    refine List.flatMap_eq_nil_iff.mpr (fresh_all (fun a _ e hf => ?_) he.fresh)
    obtain ⟨old, rfl⟩ := hf
    rfl
  have hbalance := he.balance (fun e => namedStream e.2)
    (fun e => streamsOpened (eventsOf r s.round e) ++
      (processedBy r s.round e).toList.flatMap (Processed.stream .unexamined) ++
      (processedBy r s.round e).toList.flatMap (Processed.stream .shared))
    (fun e => streamsClosed (eventsOf r s.round e) ++
      (processedBy r s.round e).toList.flatMap (Processed.stream .refused)) (fun _ _ => rfl) ?_
  · have hopened : streamsOpened (order.flatMap (eventsOf r s.round)) =
        order.flatMap fun e => streamsOpened (eventsOf r s.round e) := by
      rw [streamsOpened, handles_flatMap, taken, List.filterMap_flatMap, List.map_flatMap]
      rfl
    have hclosed : streamsClosed (order.flatMap (eventsOf r s.round)) =
        order.flatMap fun e => streamsClosed (eventsOf r s.round e) := by
      rw [streamsClosed, handles_flatMap, given, List.filterMap_flatMap, List.map_flatMap]
      rfl
    have hfates : ∀ fate, (order.filterMap (processedBy r s.round)).flatMap
        (Processed.stream fate) = order.flatMap fun e =>
          (processedBy r s.round e).toList.flatMap (Processed.stream fate) := by
      intro fate
      rw [List.filterMap_eq_flatMap_toList, List.flatMap_assoc]
    rw [hfresh, List.append_nil] at hbalance
    refine List.perm_iff_count.mpr fun fd => ?_
    have hold := List.perm_iff_count.mp hb fd
    have hnew := List.perm_iff_count.mp hbalance fd
    have hin := List.perm_iff_count.mp (List.flatMap_append_perm order
      (fun e => streamsOpened (eventsOf r s.round e) ++
        (processedBy r s.round e).toList.flatMap (Processed.stream .unexamined))
      (fun e => (processedBy r s.round e).toList.flatMap (Processed.stream .shared))) fd
    have hin' := List.perm_iff_count.mp (List.flatMap_append_perm order
      (fun e => streamsOpened (eventsOf r s.round e))
      (fun e => (processedBy r s.round e).toList.flatMap (Processed.stream .unexamined))) fd
    have hout := List.perm_iff_count.mp (List.flatMap_append_perm order
      (fun e => streamsClosed (eventsOf r s.round e))
      (fun e => (processedBy r s.round e).toList.flatMap (Processed.stream .refused))) fd
    simp only [he.trace, streamsOpened_append, streamsClosed_append, List.flatMap_append, hopened,
      hclosed, hfates, List.count_append] at hold hnew hin hin' hout ⊢
    omega
  · intro e ho
    have hown : NamesOwn e := he.forall_order hs.all fresh_own (fun _ _ hq => hq) e ho
    obtain ⟨v, hv⟩ := he.visited e ho
    rw [(keptBy_ok hv).1, (keptBy_ok hv).2]
    exact visitEntry_streams hown hv

theorem step_own {a : PollAnswer} (hs : Entrywise NamesOwn s) (h : s.step a = .ok s') :
    Entrywise NamesOwn s' := by
  refine step_entrywise fresh_own (fun _ _ hq => hq) (fun _ _ _ _ _ hq _ hv hk => ?_) hs
    (eachEntry_of_forall (fun _ _ _ => trivial) s a) h
  exact visitEntry_own hq hv hk

theorem eventLoop_streamBooks {past : List Processed} (hs : Entrywise NamesOwn s)
    (hb : StreamBooks s past) (h : eventLoop s answers = .ok s') :
    StreamBooks s' (past ++ processedRun s answers) := by
  induction answers generalizing s past with
  | nil =>
    cases h
    rw [processedRun, List.append_nil]
    exact hb
  | cons a answers ih =>
    obtain ⟨s₁, h1, h2⟩ := Run.run_cons_ok h
    have hown := step_own hs h1
    cases a with
    | eintr =>
      cases h1
      exact ih hs hb h2
    | fatal => cases h1
    | ready r =>
      obtain ⟨t, new, order, rfl, he⟩ := pollRound_ok hs.pos hs.least h1
      have hround : StreamBooks t (past ++ order.filterMap (processedBy r s.round)) :=
        round_streams he hs hb
      rw [processedRun_ready he h1, ← List.append_assoc]
      exact ih hown hround h2

theorem drain_streams {order : List Entry} {past : List Processed}
    (h : DrainEffect s s.numListeners order s') (hb : StreamBooks s past) :
    StreamBooks s' past := by
  have hleft : s'.entries = [] := live_of_le (h.listeners ▸ h.done)
  have hled : handles (order.flatMap fun e => closeEvents e.2) =
      (order.flatMap fun e => e.2.filePtr.toList).map .give := by
    simp only [handles_flatMap, handles_closeEvents, List.map_flatMap]
  have hopened : streamsOpened (order.flatMap fun e => closeEvents e.2) = [] := by
    rw [streamsOpened, hled, taken_gives, List.map_nil]
  have hclosed : streamsClosed (order.flatMap fun e => closeEvents e.2) =
      order.flatMap fun e => namedStream e.2 := by
    rw [streamsClosed, hled, given_gives, List.map_flatMap]
    rfl
  have hperm : (order.flatMap fun e => namedStream e.2).Perm
      (s.entries.flatMap fun e => namedStream e.2) := h.perm.flatMap_right _
  refine List.perm_iff_count.mpr fun fd => ?_
  have hold := List.perm_iff_count.mp hb fd
  have hnamed := List.perm_iff_count.mp hperm fd
  simp only [h.trace, hleft, streamsOpened_append, streamsClosed_append, hopened, hclosed,
    List.count_append, List.flatMap_nil, List.count_nil] at hold hnamed ⊢
  omega

end Runs

theorem setup_streamBooks {pfds : ℕ → PollFd} {clients : ℕ → Client} {v4 v6 : Option ℕ}
    (h : setup pfds clients v4 v6 = .ok s) : StreamBooks s [] := by
  rw [StreamBooks, setup_trace h, setup_empty h]
  exact List.Perm.refl _

/-- Whatever has happened, the process has given back nothing that it did not
hold, the streams of files apart, and what it holds are the responses that wait
to be sent and what the scripts have left. Behind the shutdown loop the latter is
all, and no connection names a stream any more. -/
theorem run_keeps_what_scripts_leave {pfds : ℕ → PollFd} {clients : ℕ → Client}
    {v4 v6 : Option ℕ} {s₀ s : Server} {answers : List PollAnswer}
    (h0 : setup pfds clients v4 v6 = .ok s₀) (h : eventLoop s₀ answers = .ok s) :
    let qs := processedRun s₀ answers
    let left : Multiset (ℕ × Scratch) := qs.flatMap Processed.leaks
    settle 0 (accounts s.trace) = some (waiting s + left) ∧ StreamBooks s qs ∧
      ∀ fuel s', shutdownLoop fuel s s.numListeners = .ok s' →
        settle 0 (accounts s'.trace) = some left ∧ StreamBooks s' qs ∧ s'.entries = [] := by
  intro qs left
  have hb := setup_books h0
  have hstart : Moves (accounts s₀.trace) 0 ((waiting s₀ : Multiset (ℕ × Scratch)) + 0) := by
    rw [setup_trace h0, waiting, setup_empty h0]
    exact .nil _
  have hend := eventLoop_moves hb hstart h
  rw [zero_add] at hend
  have hstreams : StreamBooks s qs :=
    eventLoop_streamBooks (setup_entrywise h0) (setup_streamBooks h0) h
  refine ⟨hend.settle, hstreams, fun fuel s' hs => ?_⟩
  obtain ⟨hb', -⟩ := eventLoop_books hb h
  obtain ⟨order, hdrain⟩ := shutdownLoop_drain hb'.clients.pos hs
  have hclosed := (drain_moves hdrain).frame left
  rw [zero_add] at hclosed
  refine ⟨?_, drain_streams hdrain hstreams, live_of_le (hdrain.listeners ▸ hdrain.done)⟩
  rw [hdrain.trace, accounts_append]
  exact (hend.append hclosed).settle

def twoScripts : List PollAnswer :=
  [.ready (acceptRound [7, 8]),
    .ready { readRound scriptEnv getScript with
      env := fun fd => if fd = 7 then scriptEnv else
        { scriptEnv with cgi := ⟨true, true, false, [], true, .exited 0, true⟩ } }]

theorem run_keeps_what_scripts_leave_two :
    ∃ s s', eventLoop startServer twoScripts = .ok s ∧
      shutdownLoop 2 s s.numListeners = .ok s' ∧
      settle 0 (accounts s'.trace) = some {(7, .cgiResponse), (8, .child)} ∧
      StreamBooks s' (processedRun startServer twoScripts) ∧
      (processedRun startServer twoScripts).flatMap (Processed.stream .shared) = [7, 8] ∧
      s'.entries = [] := by
  have hleft : ((processedRun startServer twoScripts).flatMap Processed.leaks :
      Multiset (ℕ × Scratch)) = {(7, .cgiResponse), (8, .child)} := by decide +kernel
  have hshared : (processedRun startServer twoScripts).flatMap (Processed.stream .shared) =
      [7, 8] := by decide +kernel
  obtain ⟨s, hs, ht⟩ := Run.arrives_iff.mp (show Run.arrives
    (fun s => Run.arrives (fun _ => true) (shutdownLoop 2 s s.numListeners))
    (eventLoop startServer twoScripts) = true by decide +kernel)
  obtain ⟨s', hs', -⟩ := Run.arrives_iff.mp ht
  obtain ⟨hkept, hstreams, hempty⟩ :=
    (run_keeps_what_scripts_leave setup_startServer hs).2.2 2 s' hs'
  rw [hleft] at hkept
  exact ⟨s, s', hs, hs', hkept, hstreams, hshared, hempty⟩

end SimpleServer
