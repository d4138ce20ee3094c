import SimpleServer.BuildOutcomes
import SimpleServer.ResolvedNames
import SimpleServer.Conversations

/-!
# Only the request line counts

Behind the request line the parser reads nothing, and of the line only the
tokens matter. The descriptor, the poll round, the address of the peer and all
that earlier requests have left in the record go into the trace and the log but
not into the response: two requests with the same method and target are
answered with the same bytes wherever and whenever the outside answers alike.
-/

namespace SimpleServer

open CString FileTree Pathname SlotArray

inductive SameLine : List Bytes → List Bytes → Prop
  | same (ts : List Bytes) : SameLine ts ts
  | version (m p v v' : Bytes) : v ∈ servedVersions → v' ∈ servedVersions →
      SameLine [m, p, v] [m, p, v']

/-- What is the same in two parses; the versions may differ. -/
structure SameParse (r r' : ParseResult) : Prop where
  ret : r'.ret = r.ret
  resp : r'.resp = r.resp
  method : r'.out.method = r.out.method
  path : r'.out.path = r.out.path
  time : r'.out.timeReceived = r.out.timeReceived

section Parsing

variable {line line' : Bytes} {out : Request} {resp : ClientResponse} {le le' : LogEntry}

theorem SameParse.checkRequest (out : Request) {v v' : HttpVersion} (hv : v = .http10 ∨ v = .http11)
    (hv' : v' = .http10 ∨ v' = .http11) :
    SameParse (checkRequest { out with version := v } resp le)
      (checkRequest { out with version := v' } resp le') := by
  have hserved : ∀ w : HttpVersion, w = .http10 ∨ w = .http11 →
      w ≠ .unknown ∧ w ≠ .unsupported := by
    rintro w (rfl | rfl) <;> decide
  have h1 := hserved v hv
  have h2 := hserved v' hv'
  simp only [SimpleServer.checkRequest, h1.1, h1.2, h2.1, h2.2, if_false]
  split_ifs
  all_goals exact ⟨rfl, rfl, rfl, rfl, rfl⟩

theorem versionFromToken_of_served {v : Bytes} (hv : v ∈ servedVersions) :
    versionFromToken v = .http10 ∨ versionFromToken v = .http11 := by
  rw [versionFromToken_served hv]
  split_ifs
  · exact Or.inl rfl
  · exact Or.inr rfl

theorem parseLine_sameLine (h : SameLine (tokens 32 line) (tokens 32 line')) :
    SameParse (parseLine line out resp le) (parseLine line' out resp le') := by
  rw [parseLine_eq_tokens, parseLine_eq_tokens]
  generalize tokens 32 line = ts at h
  generalize tokens 32 line' = ts' at h
  cases h with
  | same =>
    split
    · split_ifs
      · exact ⟨rfl, rfl, rfl, rfl, rfl⟩
      · simp only [checkRequest]
        split_ifs
        all_goals exact ⟨rfl, rfl, rfl, rfl, rfl⟩
    · exact ⟨rfl, rfl, rfl, rfl, rfl⟩
  | version m p v v' hv hv' =>
    simp only
    split_ifs
    · exact ⟨rfl, rfl, rfl, rfl, rfl⟩
    · exact SameParse.checkRequest ⟨methodFromToken m, .unknown, _, _⟩
        (versionFromToken_of_served hv) (versionFromToken_of_served hv')

end Parsing

/-- What is the same in two calls of `resolve_path`; the handles carry the
round and the descriptor of their requests. -/
structure SameFind (r r' : ResolveResult) : Prop where
  ret : r'.ret = r.ret
  resp : r'.client.respVal = r.client.respVal
  query : r'.rp.queryString = r.rp.queryString
  node : r'.rp.filePtr.map Handle.node = r.rp.filePtr.map Handle.node
  size : r'.rp.fileSize = r.rp.fileSize
  mime : r'.rp.mimeType = r.rp.mimeType
  time : r'.rp.lastMod = r.rp.lastMod
  kind : r'.rp.pathType = r.rp.pathType

section Resolving

variable {env : Env} {round round' : ℕ} {c c' : Client} {req req' : Request} {rp rp' : ResolvedPath}

theorem resolvePath_sameFind (hresp : c'.respVal = c.respVal) (hpath : req'.path = req.path) :
    SameFind (resolvePath env round c req rp) (resolvePath env round' c' req' rp) := by
  simp only [resolvePath, hpath]
  cases env.fopen .target (localPath req.path) with
  | error e => exact ⟨rfl, rfl, rfl, rfl, rfl, rfl, rfl, rfl⟩
  | ok node =>
    simp only
    cases env.fstat .target node with
    | none => exact ⟨rfl, rfl, rfl, rfl, rfl, rfl, rfl, rfl⟩
    | some st =>
      simp only [resolveOpened, resolveDirectory, handleDirIndex]
      repeat' split
      all_goals exact ⟨rfl, by first | rfl | exact hresp, rfl, rfl, rfl, rfl, rfl, rfl⟩

theorem delivery_same {r r' : ResolveResult} (h : SameFind r r') (hpath : req'.path = req.path)
    (htime : req'.timeReceived = req.timeReceived) :
    delivery env r'.rp req' = delivery env r.rp req := by
  have hread : (r'.rp.filePtr.map fun h => env.fread h.node) =
      r.rp.filePtr.map fun h => env.fread h.node := by
    have hmap := congrArg (Option.map env.fread) h.node
    rw [Option.map_map, Option.map_map] at hmap
    exact hmap
  simp only [delivery, cgiOutput, dirDelivery, fileDelivery, cgiHeader, dirHeader, fileHeader,
    h.kind, h.query, h.time, h.mime, h.size, hread, hpath, htime]

theorem failCode_same {r r' : ResolveResult} (h : SameFind r r') :
    failCode env r'.rp = failCode env r.rp := by
  simp only [failCode, h.kind, h.query]

theorem errorDelivery_same (htime : req'.timeReceived = req.timeReceived) (code : ClientResponse) :
    errorDelivery req' code = errorDelivery req code := by
  simp only [errorDelivery, errorHeader, htime]

end Resolving

section Answers

variable {env : Env} {round round' : ℕ} {c c' : Client} {buf buf' : Bytes}

theorem resolved_same (h : SameParse (parsed env c buf) (parsed env c' buf')) :
    SameFind (resolved env round c buf) (resolved env round' c' buf') :=
  resolvePath_sameFind h.resp h.path

theorem response_same (h : SameParse (parsed env c buf) (parsed env c' buf')) :
    response env round' c' buf' = response env round c buf := by
  have hr : SameFind (resolved env round c buf) (resolved env round' c' buf') := resolved_same h
  simp only [response, h.ret, h.resp, hr.ret, hr.resp, delivery_same hr h.path h.time,
    failCode_same hr, errorDelivery_same h.time]

theorem fromScript_same (h : SameParse (parsed env c buf) (parsed env c' buf')) :
    FromScript env round' c' buf' ↔ FromScript env round c buf := by
  have hr : SameFind (resolved env round c buf) (resolved env round' c' buf') := resolved_same h
  simp only [FromScript, cgiOutput, h.ret, hr.ret, hr.kind, hr.query]

theorem built_ret_same (hfit : OutputFits env)
    (h : SameParse (parsed env c buf) (parsed env c' buf')) :
    (built env round' c' buf').ret = 0 ↔ (built env round c buf).ret = 0 := by
  have hr : SameFind (resolved env round c buf) (resolved env round' c' buf') := resolved_same h
  rw [built_ret_iff hfit, built_ret_iff hfit, h.ret, hr.ret, delivery_same hr h.path h.time]

/-- The code that is decided on, whether or not it can be reported. -/
def decidedCode (env : Env) (round : ℕ) (c : Client) (buf : Bytes) : ClientResponse :=
  if (parsed env c buf).ret = 0 then
    if (resolved env round c buf).ret = 0 then
      if (delivery env (resolved env round c buf).rp (parsed env c buf).out).isSome then .resp200
      else failCode env (resolved env round c buf).rp
    else (resolved env round c buf).client.respVal
  else (parsed env c buf).resp

theorem buildByType_respVal {rp : ResolvedPath} {req : Request}
    (h : (buildByType env round c rp req).ret = 0) :
    (buildByType env round c rp req).client.respVal = c.respVal := by
  revert h
  simp only [buildByType, buildResponseCgi, buildResponseDir, buildResponseFile]
  repeat' split
  all_goals simp

theorem respond_code (hfit : OutputFits env) :
    (respond env round c buf).client.respVal = decidedCode env round c buf := by
  have hv : ResolveVerdict _ (resolved env round c buf) := resolvePath_verdict env round _ _ _
  rw [decidedCode]
  by_cases hp : (parsed env c buf).ret = 0
  · by_cases hr : (resolved env round c buf).ret = 0
    · rw [respond_found hp hr, if_pos hp, if_pos hr]
      simp only
      cases hd : delivery env (resolved env round c buf).rp (parsed env c buf).out with
      | none =>
        obtain ⟨b, hcode, -, hclient⟩ := buildOkayResponse_fails round
          (resolved env round c buf).client hd (hv.decided hr)
        rw [hclient, buildErrorResponse_respVal, hcode]
        rfl
      | some hb =>
        obtain ⟨hst, -⟩ : Stages (buildByType env round
            { (resolved env round c buf).client with respVal := .resp200 }
            (resolved env round c buf).rp (parsed env c buf).out) hb.1 _ ∧ _ :=
          buildByType_stages hd (delivery_short hfit hd)
        have hret : ¬ (buildByType env round
            { (resolved env round c buf).client with respVal := .resp200 }
            (resolved env round c buf).rp (parsed env c buf).out).ret < 0 := by
          rw [hst.ret]
          decide
        simp only [buildOkayResponse, hret, if_false]
        exact buildByType_respVal hst.ret
    · rw [respond_unresolved hp hr, if_pos hp, if_neg hr]
      exact buildErrorResponse_respVal
  · rw [respond_refused hp, if_neg hp]
    exact buildErrorResponse_respVal

theorem decidedCode_same (h : SameParse (parsed env c buf) (parsed env c' buf')) :
    decidedCode env round' c' buf' = decidedCode env round c buf := by
  have hr : SameFind (resolved env round c buf) (resolved env round' c' buf') := resolved_same h
  simp only [decidedCode, h.ret, h.resp, hr.ret, hr.resp, delivery_same hr h.path h.time,
    failCode_same hr]

theorem respond_outBuf (hfit : OutputFits env) (hc : c.outBuf = none) :
    (respond env round c buf).client.outBuf =
      if (built env round c buf).ret = 0 then
        some ((response env round c buf).1 ++
          if FromScript env round c buf then (response env round c buf).2
          else sentBody (parsed env c buf).out (response env round c buf).2)
      else none := by
  rw [respond_built]
  by_cases hret : (built env round c buf).ret = 0
  · rw [if_pos hret]
    exact (built_stages hfit hret).1.outBuf
  · rw [if_neg hret]
    exact built_unstaged hret hc

theorem respond_same (round round' : ℕ) (hfit : OutputFits env) (hc : c.outBuf = none)
    (hc' : c'.outBuf = none)
    (h : SameParse (parsed env c buf) (parsed env c' buf')) :
    (respond env round' c' buf').client.outBuf = (respond env round c buf).client.outBuf ∧
      (respond env round' c' buf').client.respVal =
        (respond env round c buf).client.respVal := by
  have hsent : ∀ body, sentBody (parsed env c' buf').out body =
      sentBody (parsed env c buf).out body := by
    intro body
    rw [sentBody, sentBody, h.method]
  have hret : (built env round' c' buf').ret = 0 ↔ (built env round c buf).ret = 0 :=
    built_ret_same hfit h
  have hscript : FromScript env round' c' buf' ↔ FromScript env round c buf := fromScript_same h
  have hresp : response env round' c' buf' = response env round c buf := response_same h
  constructor
  · rw [respond_outBuf hfit hc, respond_outBuf hfit hc', hresp, hsent]
    simp only [hret, hscript]
  · rw [respond_code hfit, respond_code hfit]
    exact decidedCode_same h

theorem parsed_sameLine (ht : c.headerLen ≠ 0 ∧ strnstr buf headerEnd c.headerLen ≠ none)
    (ht' : c'.headerLen ≠ 0 ∧ strnstr buf' headerEnd c'.headerLen ≠ none)
    (hresp : c'.respVal = c.respVal)
    (h : SameLine (tokens 32 (requestLine buf c.headerLen))
      (tokens 32 (requestLine buf' c'.headerLen))) :
    SameParse (parsed env c buf) (parsed env c' buf') := by
  rw [parsed, parsed, parseRequest, parseRequest, if_neg (not_or.mpr ht), if_neg (not_or.mpr ht'),
    hresp]
  exact parseLine_sameLine h

end Answers

/-- What is known of the client of every request that a run processes. -/
structure Processed.Unanswered (q : Processed) : Prop where
  undecided : q.client.respVal = .numClientResp
  unstaged : q.client.outBuf = none
  terminated : q.client.headerLen ≠ 0 ∧ strnstr q.buf headerEnd q.client.headerLen ≠ none

theorem requestIn_unanswered {rs : List RecvResult} {c c' : Client} {buf : Bytes}
    (h : Staging c) (hst : c.state = .reading) (hreq : requestIn rs c = some (c', buf)) :
    c'.respVal = .numClientResp ∧ c'.outBuf = none := by
  have hnot : c.state ≠ .sendingHeader := by
    rw [hst]
    decide
  refine ⟨?_, (requestIn_frame hreq).2.trans (h.unstaged hnot)⟩
  have hdrained : (recvLoop c rs).2 ≠ false := by
    intro hd
    simp only [requestIn, hd, if_true] at hreq
    cases hreq
  obtain ⟨k, -, rfl⟩ := requestIn_found hreq
  rcases recvLoop_undecided rs hst (h.undecided (Or.inl hst)) with ⟨-, hresp⟩ | ⟨-, hd⟩
  · exact hresp
  · exact absurd hd hdrained

theorem processedBy_unanswered {r : Round} {round : ℕ} {e : Entry} {q : Processed}
    (h : Staging e.2) (hq : processedBy r round e = some q) : q.Unanswered := by
  simp only [processedBy] at hq
  split_ifs at hq with hin
  obtain ⟨⟨c, buf⟩, hreq, rfl⟩ := Option.map_eq_some_iff.mp hq
  obtain ⟨hresp, hout⟩ := requestIn_unanswered h hin.2.2 hreq
  exact ⟨hresp, hout, requestIn_terminated hreq⟩

/-- Requests with the same method and target are answered with the same bytes
and the same status, in whichever run, round and slot they arrive, if the
outside answers them alike. -/
theorem equal_lines_answered_alike {pfds pfds' : ℕ → PollFd} {clients clients' : ℕ → Client}
    {v4 v6 v4' v6' : Option ℕ} {s₀ s₀' : Server} {answers answers' : List PollAnswer}
    (h0 : setup pfds clients v4 v6 = .ok s₀) (h0' : setup pfds' clients' v4' v6' = .ok s₀')
    {q q' : Processed} (hq : q ∈ processedRun s₀ answers) (hq' : q' ∈ processedRun s₀' answers')
    (henv : q'.env = q.env) (hfit : OutputFits q.env)
    (hline : SameLine (tokens 32 (requestLine q.buf q.client.headerLen))
      (tokens 32 (requestLine q'.buf q'.client.headerLen))) :
    q'.done.outBuf = q.done.outBuf ∧ q'.done.respVal = q.done.respVal := by
  have hu : q.Unanswered := processedRun_all (setup_books h0)
    (fun _ _ _ _ _ hst hp => processedBy_unanswered hst hp) q hq
  have hu' : q'.Unanswered := processedRun_all (setup_books h0')
    (fun _ _ _ _ _ hst hp => processedBy_unanswered hst hp) q' hq'
  have hparse : SameParse (parsed q.env q.client q.buf) (parsed q.env q'.client q'.buf) :=
    parsed_sameLine hu.terminated hu'.terminated (hu'.undecided.trans hu.undecided.symm) hline
  obtain ⟨hout, hcode⟩ := respond_same q.round q'.round hfit hu.unstaged hu'.unstaged hparse
  change (respond q'.env q'.round q'.client q'.buf).client.outBuf = _ ∧
    (respond q'.env q'.round q'.client q'.buf).client.respVal = _
  rw [henv]
  exact ⟨hout, hcode⟩

def getRootAgain : List RecvResult :=
  [.data ⟨ascii " GET   / HTTP/1.1\r\nHost: a" ++ headerEnd, by decide, by decide⟩ true]

theorem processed_listing {fd : ℕ} {rs : List RecvResult} : ∀ q ∈ processedRun startServer
    [.ready (acceptRound [fd]), .ready (readRound listingEnv rs)],
    q.env = listingEnv ∨ q.env = emptyEnv := by
  refine processedRun_all (setup_books setup_startServer) ?_
  intro r hr round e q _ hq
  simp only [processedBy] at hq
  split_ifs at hq
  obtain ⟨p, -, rfl⟩ := Option.map_eq_some_iff.mp hq
  simp only [List.mem_cons, List.not_mem_nil, or_false, PollAnswer.ready.injEq] at hr
  rcases hr with rfl | rfl
  · exact Or.inr rfl
  · exact Or.inl rfl

theorem equal_lines_answered_alike_root :
    ∃ q ∈ processedRun startServer
        [.ready (acceptRound [7]), .ready (readRound listingEnv getRoot)],
      ∃ q' ∈ processedRun startServer
          [.ready (acceptRound [9]), .ready (readRound listingEnv getRootAgain)],
        q.client.fd = 7 ∧ q'.client.fd = 9 ∧ q.done.outBuf.isSome = true ∧
          q'.done.outBuf = q.done.outBuf ∧ q'.done.respVal = q.done.respVal := by
  have hfirst : (processedRun startServer
      [.ready (acceptRound [7]), .ready (readRound listingEnv getRoot)]).any (fun q =>
        q.env.flags.c && decide (q.client.fd = 7) && q.done.outBuf.isSome &&
          decide (tokens 32 (requestLine q.buf q.client.headerLen) =
            [ascii "GET", ascii "/", ascii "HTTP/1.0"])) = true := by decide +kernel
  have hsecond : (processedRun startServer
      [.ready (acceptRound [9]), .ready (readRound listingEnv getRootAgain)]).any (fun q =>
        q.env.flags.c && decide (q.client.fd = 9) &&
          decide (tokens 32 (requestLine q.buf q.client.headerLen) =
            [ascii "GET", ascii "/", ascii "HTTP/1.1"])) = true := by decide +kernel
  have henv : ∀ env : Env, env.flags.c = true → env = listingEnv ∨ env = emptyEnv →
      env = listingEnv := by
    rintro env hc (rfl | rfl)
    · rfl
    · cases hc
  obtain ⟨q, hq, hw⟩ := List.any_eq_true.mp hfirst
  obtain ⟨q', hq', hw'⟩ := List.any_eq_true.mp hsecond
  simp only [Bool.and_eq_true, decide_eq_true_eq] at hw hw'
  have he := henv q.env hw.1.1.1 (processed_listing q hq)
  have he' := henv q'.env hw'.1.1 (processed_listing q' hq')
  have hfit : OutputFits q.env := by
    rw [he]
    intro got hg
    cases hg
    decide
  have hline : SameLine (tokens 32 (requestLine q.buf q.client.headerLen))
      (tokens 32 (requestLine q'.buf q'.client.headerLen)) := by
    rw [hw.2, hw'.2]
    exact .version _ _ _ _ (by decide) (by decide)
  exact ⟨q, hq, q', hq', hw.1.1.2, hw'.1.2, hw.1.2, equal_lines_answered_alike setup_startServer
    setup_startServer hq hq' (he'.trans he.symm) hfit hline⟩

end SimpleServer
