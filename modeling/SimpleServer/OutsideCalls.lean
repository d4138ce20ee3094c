import SimpleServer.CgiDirectory
import SimpleServer.ListingRoundTrip
import SimpleServer.Conversations

/-!
# What a run asks of the file system

A pathname reaches the kernel in three ways: `fopen`, `opendir` and `execvp`.
The whole sequence of these calls in a run is that of the requests processed,
one behind the other. A refused request asks for nothing; an accepted one opens
its target, perhaps index files of it, and then lists it or starts one child.
From the environment of a child the request line can be read back.
-/

namespace SimpleServer

open CString FileTree Pathname SlotArray

inductive Ask where
  | openFile (path : Bytes)
  | list (path : Bytes)
  | run (call : ExecCall)
  deriving DecidableEq, Repr

def Event.ask : Event → Option Ask
  | .fopen path => some (.openFile path)
  | .opendir path => some (.list path)
  | .execvp call => some (.run call)
  | _ => none

/-- The names of the target and of the index files that are looked for in it. -/
def targetNames (env : Env) (path : Bytes) : List Bytes :=
  namesTried env path (getFilePath (getLastChar path) path dirIndex)
    (getFilePath (getLastChar path) path dirIndex2)

/-- What the builder for the resource found asks for. -/
def buildAsks (env : Env) (c : Client) (rp : ResolvedPath) (req : Request) : List Ask :=
  match rp.pathType with
  | .isDir => [.list (req.path.drop 1)]
  | .isCgi =>
    if env.flags.c = true ∧ env.cgi.pipe = true ∧ env.cgi.fork = true then
      [.run (execCall c rp req)]
    else []
  | _ => []

def Processed.asks (q : Processed) : List Ask :=
  let p := parsed q.env q.client q.buf
  let r := resolved q.env q.round q.client q.buf
  if p.ret = 0 then
    (targetNames q.env (localPath p.out.path)).map .openFile ++
      if r.ret = 0 then buildAsks q.env q.client r.rp p.out else []
  else []

section Requests

variable {env : Env} {round : ℕ} {c : Client} {rp : ResolvedPath} {req : Request} {buf : Bytes}

theorem buildErrorResponse_asks : (buildErrorResponse env round c req).events.filterMap Event.ask =
    [] := by
  rw [buildErrorResponse]
  repeat' split
  all_goals rfl

theorem buildResponseCgi_asks (hq : rp.queryString.length ≤ pathMax) :
    (buildResponseCgi env round c rp req).events.filterMap Event.ask =
      if env.flags.c = true ∧ env.cgi.pipe = true ∧ env.cgi.fork = true then
        [.run (execCall c rp req)]
      else [] := by
  have hlen := Nat.not_lt.mpr hq
  cases hc : env.flags.c with
  | false => simp [buildResponseCgi, hc]
  | true =>
    cases hp : env.cgi.pipe with
    | false => simp [buildResponseCgi, hc, hp]
    | true =>
      cases hf : env.cgi.fork with
      | false => simp [buildResponseCgi, hc, hp, hf, hlen, Event.ask]
      | true =>
        simp only [buildResponseCgi, hc, hp, hf, hlen, Bool.true_eq_false, if_false, and_self,
          if_true]
        repeat' split
        all_goals rfl

theorem buildResponseDir_asks (hd : rp.pathType = .isDir) :
    (buildResponseDir env round c rp req).events.filterMap Event.ask =
      [.list (req.path.drop 1)] := by
  simp only [buildResponseDir, hd, ne_eq, not_true, if_false]
  repeat' split
  all_goals rfl

theorem buildResponseFile_asks :
    (buildResponseFile env round c rp req).events.filterMap Event.ask = [] := by
  simp only [buildResponseFile]
  repeat' split
  all_goals rfl

theorem buildByType_asks (hq : rp.queryString.length ≤ pathMax) :
    (buildByType env round c rp req).events.filterMap Event.ask = buildAsks env c rp req := by
  cases ht : rp.pathType with
  | isCgi =>
    simp only [buildByType, buildAsks, ht]
    exact buildResponseCgi_asks hq
  | isDir =>
    simp only [buildByType, buildAsks, ht]
    exact buildResponseDir_asks ht
  | isFile =>
    simp only [buildByType, buildAsks, ht]
    exact buildResponseFile_asks
  | unknown => simp only [buildByType, buildAsks, ht, List.filterMap_nil]

theorem buildOkayResponse_asks (hq : rp.queryString.length ≤ pathMax) :
    (buildOkayResponse env round c rp req).events.filterMap Event.ask = buildAsks env c rp req := by
  have hb : (buildByType env round { c with respVal := .resp200 } rp req).events.filterMap
      Event.ask = buildAsks env { c with respVal := .resp200 } rp req := buildByType_asks hq
  have hfreed : ∀ b : Bool, (if b = true then
      [Event.release (.scratch round c.fd .outBuf)] else []).filterMap Event.ask = [] := by
    intro b
    split_ifs <;> rfl
  simp only [buildOkayResponse]
  split
  · simp only [List.filterMap_append, hb, hfreed, buildErrorResponse_asks, List.append_nil]
    rfl
  · exact hb

theorem resolvePath_asks : (resolvePath env round c req rp).events.filterMap Event.ask =
    (targetNames env (localPath req.path)).map .openFile := by
  have hopen : ∀ ev ∈ (resolvePath env round c req rp).events,
      ev.ask = ev.pathname.map .openFile := by
    intro ev hev
    cases resolvePath_events env round c req rp ev hev with
    | _ => rfl
  rw [targetNames, ← resolvePath_names env round c req rp, List.map_filterMap]
  exact List.filterMap_congr hopen

theorem resolved_query : (resolved env round c buf).rp.queryString.length ≤ pathMax := by
  rw [resolved, resolvePath_queryString, storeQuery]
  split
  · exact (List.length_take_le _ _).trans (by decide)
  · exact Nat.zero_le _

theorem respond_asks (q : Processed) :
    (respond q.env q.round q.client q.buf).events.filterMap Event.ask = q.asks := by
  have hres : (resolved q.env q.round q.client q.buf).events.filterMap Event.ask = _ :=
    resolvePath_asks
  have hf : ResolveFrame _ (resolved q.env q.round q.client q.buf).client :=
    resolvePath_frame q.env q.round _ _ _
  have hframe : (resolved q.env q.round q.client q.buf).client.clientAddr = q.client.clientAddr := by
    rw [hf.eq]
  simp only [Processed.asks]
  by_cases hp : (parsed q.env q.client q.buf).ret = 0
  · by_cases hr : (resolved q.env q.round q.client q.buf).ret = 0
    · have hcall : ∀ rp req, execCall (resolved q.env q.round q.client q.buf).client rp req =
          execCall q.client rp req := by
        intro rp req
        rw [execCall, execCall, hframe]
      rw [respond_found hp hr, if_pos hp, if_pos hr]
      simp only [List.filterMap_append, hres, buildOkayResponse_asks resolved_query, buildAsks, hcall]
    · rw [respond_unresolved hp hr, if_pos hp, if_neg hr]
      simp only [List.filterMap_append, hres, buildErrorResponse_asks]
  · rw [respond_refused hp, if_neg hp]
    exact buildErrorResponse_asks

theorem serve_asks (q : Processed) :
    (serve q.env q.round q.client q.pollFd q.buf).events.filterMap Event.ask = q.asks := by
  have hlog : ∀ served : Served, (logServed q.env.flags served).filterMap Event.ask = [] := by
    intro served
    simp only [logServed]
    split <;> rfl
  have hclose : ∀ rp : ResolvedPath, (closeResolvePathPtr rp).2.filterMap Event.ask = [] := by
    intro rp
    simp only [closeResolvePathPtr]
    split <;> rfl
  simp only [serve, List.filterMap_append, hlog, hclose, List.append_nil]
  exact respond_asks q

end Requests

section Visits

variable {r : Round} {round : ℕ} {e : Entry} {v : Visit}

theorem readEntry_asks (hz : e.1.revents &&& pollFailed = 0) :
    (readEntry r round e).events.filterMap Event.ask =
      (processedBy r round e).toList.flatMap Processed.asks := by
  by_cases hin : e.1.revents &&& pollIn ≠ 0 ∧ e.2.state = .reading
  · rw [readEntry, if_pos hin, processedBy, if_pos ⟨hz, hin⟩, doRead_requestIn]
    cases hreq : requestIn (r.recvs e.2.fd) e.2 with
    | none => rfl
    | some q =>
      rw [Option.map_some, Option.toList_some, List.flatMap_singleton]
      exact serve_asks ⟨r.env e.2.fd, round, q.1, e.1, q.2⟩
  · rw [readEntry, if_neg hin, processedBy, if_neg fun h => hin h.2]
    rfl

theorem writeEntry_asks {revents : PollMask} {c : Client} {w : WriteOutcome}
    (h : writeEntry r revents c = .ok w) : w.events.filterMap Event.ask = [] := by
  rw [List.filterMap_eq_nil_iff]
  intro ev hev
  have hl := (writeEntry_moment h).events ev hev
  cases ev <;> first | rfl | cases hl

theorem closeEvents_asks (c : Client) : (closeEvents c).filterMap Event.ask = [] := by
  rw [closeEvents]
  cases c.filePtr <;> rfl

theorem visitEntry_asks (hv : visitEntry r round e = .ok v) :
    v.events.filterMap Event.ask = (processedBy r round e).toList.flatMap Processed.asks := by
  have hvisit : ∀ l, (Event.visit e.1 e.2 :: l).filterMap Event.ask = l.filterMap Event.ask :=
    fun _ => rfl
  cases visitEntry_cases hv with
  | idle h0 =>
    rw [processedBy_idle h0]
    rfl
  | failed h0 h1 =>
    rw [hvisit, closeEvents_asks, processedBy, if_neg fun h => h1 h.1]
    rfl
  | closing w h0 hz hw hc =>
    rw [List.cons_append, hvisit, List.filterMap_append, List.filterMap_append, writeEntry_asks hw,
      closeEvents_asks, readEntry_asks hz, List.append_nil, List.append_nil]
  | kept w h0 hz hw hc =>
    rw [hvisit, List.filterMap_append, writeEntry_asks hw, readEntry_asks hz, List.append_nil]

end Visits

section Runs

variable {r : Round} {s s' : Server} {new order : List Entry} {answers : List PollAnswer}

theorem round_asks (he : RoundEffect r s new order s') :
    s'.trace.filterMap Event.ask = s.trace.filterMap Event.ask ++
      (order.filterMap (processedBy r s.round)).flatMap Processed.asks := by
  have hvisit : ∀ e ∈ order, (eventsOf r s.round e).filterMap Event.ask =
      (processedBy r s.round e).toList.flatMap Processed.asks := by
    intro e ho
    obtain ⟨v, hv⟩ := he.visited e ho
    rw [(keptBy_ok hv).2]
    exact visitEntry_asks hv
  have hflat : (order.filterMap (processedBy r s.round)).flatMap Processed.asks =
      order.flatMap fun e => (processedBy r s.round e).toList.flatMap Processed.asks := by
    rw [List.filterMap_eq_flatMap_toList, List.flatMap_assoc]
  rw [he.trace, List.filterMap_append, List.filterMap_flatMap, List.flatMap_congr hvisit, hflat]

theorem eventLoop_asks (hb : Books s) (h : eventLoop s answers = .ok s') :
    s'.trace.filterMap Event.ask = s.trace.filterMap Event.ask ++
      (processedRun s answers).flatMap Processed.asks := by
  induction answers generalizing s with
  | nil =>
    cases h
    rw [processedRun, List.flatMap_nil, List.append_nil]
  | cons a answers ih =>
    obtain ⟨s₁, h1, h2⟩ := Run.run_cons_ok h
    cases a with
    | eintr =>
      cases h1
      exact ih hb h2
    | fatal => cases h1
    | ready r =>
      obtain ⟨t, new, order, rfl, he⟩ := pollRound_ok hb.clients.pos hb.clients.least h1
      rw [ih ((round_books he hb).tick _) h2, processedRun_ready he h1, List.flatMap_append,
        ← List.append_assoc, ← round_asks he]

end Runs

section Children

variable {env : Env} {c : Client} {buf m p v : Bytes}

theorem accepted_spelling (hv : lineVerdict m p v = none) :
    methodToString (if m = ascii "GET" then .get else .head) = m ∧
      versionToString (if v = ascii "HTTP/1.0" then .http10 else .http11) = v := by
  rw [lineVerdict] at hv
  split_ifs at hv with h1 h2 h3 h4 h5
  have hserved : v ∈ servedVersions := by
    have hin := not_not.mp (not_or.mp h2).2
    exact (List.mem_append.mp hin).resolve_right h3
  constructor
  · split_ifs with hg
    · rw [hg]
      rfl
    · have hh : m = ascii "HEAD" := by_contra fun hh => h5 ⟨hg, hh⟩
      rw [hh]
      rfl
  · split_ifs with h10
    · rw [h10]
      rfl
    · have h11 : v = ascii "HTTP/1.1" := by
        simp only [servedVersions, List.mem_cons, List.not_mem_nil, or_false] at hserved
        exact hserved.resolve_left h10
      rw [h11]
      rfl

/-- The environment of a child, read against the line of its request. -/
structure Describes (q : Processed) (call : ExecCall) (target : Bytes) : Prop where
  line : tokens 32 (firstLine (q.buf.take q.client.headerLen)) =
    [call.requestMethod, target, call.serverProtocol]
  program : call.path = dot ++ component target
  name : call.scriptName = call.path
  peer : call.remoteAddr = q.client.clientAddr
  query : target.length ≤ pathMax - 2 → 63 ∉ queryPart target → call.queryString = queryPart target

theorem Processed.describes {q : Processed} {call : ExecCall} (h : .run call ∈ q.asks) :
    ∃ target, Describes q call target := by
  simp only [Processed.asks] at h
  split at h
  · rename_i hp
    have hcall : call = execCall q.client (resolved q.env q.round q.client q.buf).rp
        (parsed q.env q.client q.buf).out := by
      rcases List.mem_append.mp h with h | h
      · simp at h
      · split_ifs at h
        · simp only [buildAsks] at h
          repeat' split at h
          all_goals simp at h
          exact h
        · simp at h
    have hverdict := parsed_verdict hp
    obtain ⟨-, -, m, p, v, ht, hout⟩ :=
      (parsed_parses q.env q.client q.buf).accepted hverdict
    have hline : lineVerdict m p v = none := by
      rw [verdict] at hverdict
      split_ifs at hverdict
      rwa [ht] at hverdict
    obtain ⟨hm, hv⟩ := accepted_spelling hline
    have hpath : (parsed q.env q.client q.buf).out.path = p := by rw [hout]
    have hz : 0 ∉ p := hpath ▸ (parsed_target hp).noNul
    refine ⟨p, ?_, ?_, ?_, ?_, ?_⟩
    · rw [ht, hcall, execCall, hout, hm, hv]
    · rw [hcall, execCall, hpath, scriptPath_eq hz]
    · rw [hcall]
      rfl
    · rw [hcall]
      rfl
    · intro hlen hq
      rw [hcall, execCall, resolved, resolvePath_queryString, hpath, storeQuery_short hlen]
      exact strtok_whole_iff.mpr hq
  · simp at h

end Children

/-- The calls by which a run hands a pathname to the kernel are those of the
requests processed, in their order, and each child is described to itself as
its request was. -/
theorem outside_calls_of_run {pfds : ℕ → PollFd} {clients : ℕ → Client} {v4 v6 : Option ℕ}
    {s₀ s : Server} {answers : List PollAnswer} (h0 : setup pfds clients v4 v6 = .ok s₀)
    (h : eventLoop s₀ answers = .ok s) :
    s.trace.filterMap Event.ask = (processedRun s₀ answers).flatMap Processed.asks ∧
      ∀ call, .execvp call ∈ s.trace →
        ∃ q ∈ processedRun s₀ answers, ∃ target, Describes q call target := by
  have hasks := eventLoop_asks (setup_books h0) h
  rw [setup_trace h0] at hasks
  refine ⟨hasks, fun call hcall => ?_⟩
  have hmem : Ask.run call ∈ s.trace.filterMap Event.ask :=
    List.mem_filterMap.mpr ⟨.execvp call, hcall, rfl⟩
  rw [hasks] at hmem
  obtain ⟨q, hq, hask⟩ := List.mem_flatMap.mp hmem
  exact ⟨q, hq, q.describes hask⟩

def scriptEnv : Env :=
  { listingEnv with
    fstat := fun _ _ => some ⟨false, 0, 0⟩
    cgi := ⟨true, true, true, [(true, .eof)], true, .exited 0, true⟩ }

def getScript : List RecvResult :=
  [.data ⟨ascii "HEAD  /cgi-bin/a?b=1 HTTP/1.1" ++ headerEnd, by decide, by decide⟩ true]

theorem outside_calls_of_run_script :
    ∃ s, eventLoop startServer [.ready (acceptRound [7]), .ready (readRound scriptEnv getScript)] =
        .ok s ∧
      ∃ call, .execvp call ∈ s.trace ∧ call.queryString = ascii "b=1" ∧
        call.requestMethod = ascii "HEAD" ∧ ∃ q target, Describes q call target := by
  obtain ⟨s, hs, ht⟩ := Run.arrives_iff.mp (show Run.arrives
    (fun s => (s.trace.filterMap Event.ask).any fun
      | .run call => decide (.execvp call ∈ s.trace ∧ call.queryString = ascii "b=1" ∧
          call.requestMethod = ascii "HEAD")
      | _ => false)
    (eventLoop startServer [.ready (acceptRound [7]), .ready (readRound scriptEnv getScript)]) =
      true by decide +kernel)
  obtain ⟨ask, -, hask⟩ := List.any_eq_true.mp ht
  cases ask with
  | run call =>
    obtain ⟨hcall, hquery, hmethod⟩ := of_decide_eq_true hask
    obtain ⟨q, -, target, hd⟩ := (outside_calls_of_run setup_startServer hs).2 call hcall
    exact ⟨s, hs, call, hcall, hquery, hmethod, q, target, hd⟩
  | openFile path => cases hask
  | list path => cases hask

end SimpleServer
