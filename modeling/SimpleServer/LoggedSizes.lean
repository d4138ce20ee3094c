import SimpleServer.ListingsServed

/-!
# The log against what the peers read

The status and the size in a log line come from `resp_val` and `body_len`, and
what a peer reads comes from `out_buf`. In every run the status is the one that
the peer reads. The size is that of the body where one is sent, and to a `HEAD`
request it is the length announced; but the listing of a directory, which
`build_response_dir` leaves with `body_len` unset, is logged as 0. The size is
printed as an `int`, and from 2 GiB on it is another number.
-/

namespace SimpleServer

open CString FileTree SlotArray HttpMessage

def FromListing (env : Env) (round : ℕ) (c : Client) (buf : Bytes) : Prop :=
  (parsed env c buf).ret = 0 ∧ (resolved env round c buf).ret = 0 ∧
    (resolved env round c buf).rp.pathType = .isDir ∧
    (dirDelivery env (resolved env round c buf).rp (parsed env c buf).out).isSome = true

instance (env : Env) (round : ℕ) (c : Client) (buf : Bytes) :
    Decidable (FromListing env round c buf) := inferInstanceAs (Decidable (_ ∧ _ ∧ _ ∧ _))

/-- The log line of a request, against the message that its peer reads. -/
structure Processed.Recounts (q : Processed) (head : Head) (body : Bytes) : Prop where
  line : ∃ before, q.logText = before ++
    (head.code ++ ascii " " ++ decimalInt q.done.bodyLen ++ ascii "\n")
  size : q.done.bodyLen < 2 ^ 31 → decimalInt q.done.bodyLen = decimal q.done.bodyLen
  sent : (parsed q.env q.client q.buf).out.method ≠ .head ∨
      FromScript q.env q.round q.client q.buf → q.done.bodyLen = body.length
  announced : (parsed q.env q.client q.buf).out.method = .head →
    ¬ FromScript q.env q.round q.client q.buf → body = [] ∧
      q.done.bodyLen = if FromListing q.env q.round q.client q.buf then 0 else head.len

section Builders

variable {env : Env} {round : ℕ} {c : Client} {rp : ResolvedPath} {req : Request} {buf : Bytes}
  {hb : Bytes × Bytes}

def SizesAgree (r : ResolveResult) : Prop :=
  r.ret = 0 → r.rp.pathType = .isFile → r.client.fileSize = r.rp.fileSize

theorem handleDirIndex_sizes (h : Handle) : SizesAgree (handleDirIndex env c rp h) := by
  simp only [handleDirIndex]
  split
  · exact fun hr => by cases hr
  · exact fun _ _ => rfl

theorem resolveDirectory_sizes (path : Bytes) (h : Handle) (st : Stat) :
    SizesAgree (resolveDirectory env round c rp path h st) := by
  simp only [resolveDirectory]
  split
  · exact handleDirIndex_sizes _
  · split
    · exact handleDirIndex_sizes _
    · exact fun _ hk => by cases hk

theorem resolvePath_sizes : SizesAgree (resolvePath env round c req rp) := by
  simp only [resolvePath, resolveOpened]
  split
  · exact fun hr => by cases hr
  · split
    · exact fun hr => by cases hr
    · split
      · exact fun hr => by cases hr
      · split
        · exact resolveDirectory_sizes _ _ _
        · exact fun _ _ => rfl

theorem buildResponseFile_head (hm : req.method = .head)
    (h : (fileDelivery env rp req).isSome = true) :
    (buildResponseFile env round c rp req).client.bodyLen = c.fileSize := by
  simp only [fileDelivery] at h
  split at h
  · rename_i modTime htime
    split_ifs at h with hout
    · simp [buildResponseFile, htime, hout, hm]
    · cases h
  · cases h

theorem buildResponseDir_head (hm : req.method = .head) :
    (buildResponseDir env round c rp req).client.bodyLen = c.bodyLen := by
  simp only [buildResponseDir, hm, if_true]
  repeat' split
  all_goals rfl

/-- What the log says about the size of the answer, against its header and its body. -/
def Reported (env : Env) (round : ℕ) (c : Client) (buf : Bytes) (head : Head) : Prop :=
  ((parsed env c buf).out.method ≠ .head ∨ FromScript env round c buf →
    (built env round c buf).client.bodyLen = (response env round c buf).2.length) ∧
  ((parsed env c buf).out.method = .head → ¬ FromScript env round c buf →
    (built env round c buf).client.bodyLen =
      if FromListing env round c buf then c.bodyLen else head.len)

theorem reported_error (he : PlainEnv env) {code : ClientResponse} (hcode : code.isError = true)
    (hresponse : response env round c buf = errorDelivery (parsed env c buf).out code)
    (hlen : (built env round c buf).client.bodyLen =
      (errorDelivery (parsed env c buf).out code).2.length)
    (hlist : ¬ FromListing env round c buf) :
    ∃ head, IsHead (response env round c buf).1 head ∧ Reported env round c buf head := by
  obtain ⟨head, hhead, -, hl⟩ := errorDelivery_isHead (parsed_time_oneLine he) hcode
  refine ⟨head, by rw [hresponse]; exact hhead, fun _ => ?_, fun _ _ => ?_⟩
  · rw [hresponse, hlen]
  · rw [if_neg hlist, hlen, hl]
    rfl

theorem buildOkayResponse_built {hb : Bytes × Bytes} (h : delivery env rp req = some hb)
    (hs : rp.pathType = .isCgi → hb.1.length ≤ maxHeaderBuf - 1) :
    buildOkayResponse env round c rp req =
      buildByType env round { c with respVal := .resp200 } rp req := by
  have hb : Stages (buildByType env round { c with respVal := .resp200 } rp req) _ _ ∧ _ :=
    buildByType_stages h hs
  have hret : ¬ (buildByType env round { c with respVal := .resp200 } rp req).ret < 0 := by
    rw [hb.1.ret]
    decide
  simp only [buildOkayResponse, hret, if_false]

theorem delivered_reported (he : PlainEnv env) (h : (built env round c buf).ret = 0)
    (hp : (parsed env c buf).ret = 0) (hr : (resolved env round c buf).ret = 0)
    {hb : Bytes × Bytes}
    (hd : delivery env (resolved env round c buf).rp (parsed env c buf).out = some hb) :
    ∃ head, IsHead (response env round c buf).1 head ∧ Reported env round c buf head := by
  have hdate : OneLine (parsed env c buf).out.timeReceived := parsed_time_oneLine he
  have hsent := (built_stages he.output h).2
  have hresponse : response env round c buf = hb := by
    rw [response, if_pos hp, if_pos hr, hd, Option.getD_some]
  have hbuilt : built env round c buf = buildByType env round
      { (resolved env round c buf).client with respVal := .resp200 } (resolved env round c buf).rp
      (parsed env c buf).out := by
    rw [built, if_pos hp, if_pos hr]
    exact buildOkayResponse_built hd (delivery_short he.output hd)
  have hf : ResolveFrame _ (resolved env round c buf).client := resolvePath_frame env round _ _ _
  cases hkind : (resolved env round c buf).rp.pathType with
  | unknown =>
    simp only [delivery, hkind] at hd
    cases hd
  | isCgi =>
    have hshort := delivery_short he.output hd hkind
    simp only [delivery, hkind, Option.map_eq_some_iff] at hd
    obtain ⟨got, hgot, rfl⟩ := hd
    have hscript : FromScript env round c buf := ⟨hp, hr, hkind, by rw [hgot]; rfl⟩
    have hhead := okHead_isHead hdate (fun _ ht => by cases ht)
      (show OneLine (ascii "text/html") by decide) (cgiHeader_lines _ got.length)
    refine ⟨_, by rw [hresponse]; exact hhead, fun _ => ?_, fun _ hn => absurd hscript hn⟩
    rw [hbuilt, hresponse, buildByType, hkind]
    exact (buildResponseCgi_stages hgot hshort).2
  | isDir =>
    have hnot : ¬ FromScript env round c buf := not_fromScript hkind (by decide)
    simp only [delivery, hkind] at hd
    have hlist : FromListing env round c buf := ⟨hp, hr, hkind, by rw [hd]; rfl⟩
    obtain ⟨head, hhead⟩ : ∃ head, IsHead (response env round c buf).1 head := response_isHead he
    refine ⟨head, hhead, fun hs => hsent (hs.resolve_right hnot), fun hm _ => ?_⟩
    rw [if_pos hlist, hbuilt, buildByType, hkind]
    refine (buildResponseDir_head hm).trans ?_
    change (resolved env round c buf).client.bodyLen = c.bodyLen
    rw [hf.eq]
  | isFile =>
    have hnot : ¬ FromScript env round c buf := not_fromScript hkind (by decide)
    have hlist : ¬ FromListing env round c buf := by
      intro hl
      have hdir := hl.2.2.1
      rw [hkind] at hdir
      cases hdir
    simp only [delivery, hkind] at hd
    obtain ⟨modTime, hhead⟩ := fileDelivery_isHead he hdate (resolvePath_mime_oneLine he) hd
    refine ⟨_, by rw [hresponse]; exact hhead, fun hs => hsent (hs.resolve_right hnot),
      fun hm _ => ?_⟩
    rw [if_neg hlist, hbuilt, buildByType, hkind]
    exact (buildResponseFile_head hm (by rw [hd]; rfl)).trans (resolvePath_sizes hr hkind)

theorem built_reported (he : PlainEnv env) (h : (built env round c buf).ret = 0) :
    ∃ head, IsHead (response env round c buf).1 head ∧ Reported env round c buf head := by
  have hv : ResolveVerdict _ (resolved env round c buf) := resolvePath_verdict env round _ _ _
  by_cases hp : (parsed env c buf).ret = 0
  · by_cases hr : (resolved env round c buf).ret = 0
    · cases hd : delivery env (resolved env round c buf).rp (parsed env c buf).out with
      | some hb => exact delivered_reported he h hp hr hd
      | none =>
        have hlist : ¬ FromListing env round c buf := by
          rintro ⟨-, -, hkind, hsome⟩
          simp only [delivery, hkind] at hd
          rw [hd] at hsome
          cases hsome
        refine reported_error he (failCode_isError env (resolved env round c buf).rp) ?_ ?_ hlist
        · rw [response, if_pos hp, if_pos hr, hd, Option.getD_none]
        · rw [built, if_pos hp, if_pos hr] at h ⊢
          exact (buildOkayResponse_failed hd (hv.decided hr) h).2
    · refine reported_error he (hv.failed hr) ?_ ?_ fun hl => hr hl.2.1
      · rw [response, if_pos hp, if_neg hr]
      · rw [built, if_pos hp, if_neg hr] at h ⊢
        exact (buildErrorResponse_stages h).2
  · refine reported_error he (parseRequest_error hp) ?_ ?_ fun hl => hp hl.1
    · rw [response, if_neg hp]
      rfl
    · rw [built, if_neg hp] at h ⊢
      exact (buildErrorResponse_stages h).2

end Builders

section Requests

variable {answers : List PollAnswer} {q : Processed} {out : Bytes}

theorem Processed.recounts (he : PlainEnv q.env) (hc : q.client.outBuf = none)
    (h0 : q.client.bodyLen = 0) (ho : q.done.outBuf = some out) :
    ∃ head body, HttpMessage.read out = some (Head.message head body) ∧ q.Recounts head body := by
  have hout : (respond q.env q.round q.client q.buf).client.outBuf = some out := ho
  have hret : (built q.env q.round q.client q.buf).ret = 0 := by
    by_contra hn
    have hnone := built_unstaged hn hc
    rw [← respond_built, hout] at hnone
    cases hnone
  obtain ⟨head, hhead, hsent, hannounced⟩ := built_reported he hret
  have hstaged : Staged (respond q.env q.round q.client q.buf).client := by
    apply (respond_answer hc).resolve_right
    rw [hout]
    simp
  have hbody := (built_stages he.output hret).1.outBuf
  rw [← respond_built] at hbody hsent hannounced
  have hcode := staged_code hhead hstaged hbody
  rw [hout, Option.some.injEq] at hbody
  refine ⟨head, _, read_staged hhead hbody, ?_, (decimalInt_eq_iff _).mpr, fun hs => ?_,
    fun hm hn => ⟨?_, ?_⟩⟩
  · rw [hcode]
    exact ⟨_, rfl⟩
  · refine (hsent hs).trans ?_
    split
    · rfl
    · rename_i hn
      rw [sentBody, if_neg (hs.resolve_right hn)]
  · rw [if_neg hn, sentBody, if_pos hm]
  · rw [← h0]
    exact hannounced hm hn

theorem readEntry_bodyLen {r : Round} {round : ℕ} {e : Entry}
    (h : e.2.state = .reading → e.2.bodyLen = 0)
    (hst : (readEntry r round e).client.state = .reading) :
    (readEntry r round e).client.bodyLen = 0 := by
  by_cases hin : e.1.revents &&& pollIn ≠ 0 ∧ e.2.state = .reading
  · rw [readEntry, if_pos hin, doRead_requestIn] at hst ⊢
    cases hreq : requestIn (r.recvs e.2.fd) e.2 with
    | none => exact (congrArg Client.bodyLen (recvLoop_frame _ _).eq).trans (h hin.2)
    | some q =>
      rw [hreq] at hst
      cases hst
  · rw [readEntry, if_neg hin] at hst ⊢
    exact h hst

theorem processedRun_bodyLen {pfds : ℕ → PollFd} {clients : ℕ → Client} {v4 v6 : Option ℕ}
    {s₀ : Server} (h : setup pfds clients v4 v6 = .ok s₀) :
    ∀ q ∈ processedRun s₀ answers, q.client.bodyLen = 0 := by
  refine processedRun_entrywise (Q := fun e => e.2.state = .reading → e.2.bodyLen = 0) ?_ ?_ ?_ ?_
    (setup_entrywise h)
  · intro a e hf _
    obtain ⟨old, rfl⟩ := hf
    rfl
  · exact fun e m hq => hq
  · intro r round e v e' hq hv hk hst
    rcases visitEntry_kept hv hk with ⟨rfl, -⟩ | ⟨-, -, rfl⟩
    · exact hq hst
    · exact readEntry_bodyLen hq hst
  · intro r _ round e q hq hp
    simp only [processedBy] at hp
    split_ifs at hp with hin
    obtain ⟨⟨c, buf⟩, hreq, rfl⟩ := Option.map_eq_some_iff.mp hp
    obtain ⟨k, -, rfl⟩ := requestIn_found hreq
    exact (congrArg Client.bodyLen (recvLoop_frame _ _).eq).trans (hq hin.2.2)

end Requests

/-- Where requests are logged, the line of a request has the status that its
peer reads, and below 2 GiB the size of the body that it reads; to a `HEAD`
request the size that is announced, or 0 for the listing of a directory. -/
theorem log_recounts_responses {pfds : ℕ → PollFd} {clients : ℕ → Client} {v4 v6 : Option ℕ}
    {s₀ s : Server} {answers : List PollAnswer} (h0 : setup pfds clients v4 v6 = .ok s₀)
    (h : eventLoop s₀ answers = .ok s)
    (hlog : ∀ r, .ready r ∈ answers → ∀ fd, (r.env fd).flags.logging = true)
    (hplain : ∀ r, .ready r ∈ answers → ∀ fd, PlainEnv (r.env fd)) :
    ∀ x ∈ endings s.trace, x.sent ≠ [] → ∃ q ∈ processedRun s₀ answers,
      x.client.received = q.buf ∧ q.done = x.client.asStaged ∧ .logLine q.logText ∈ s.trace ∧
      ∃ head body, HttpMessage.read x.sent = some (Head.message head body) ∧
        q.Recounts head body := by
  intro x hx hne
  obtain ⟨q, hq, hf, hbuf, hdone, hclient⟩ := ended_faithful h0 h hx hne
  obtain ⟨r, fd, hr, henv⟩ := hf.outside
  have he : PlainEnv q.env := henv ▸ hplain r hr fd
  have hlogged := eventLoop_logged (setup_entrywise h0) hlog h
  rw [setup_trace h0] at hlogged
  have hline : q.logText ∈ s.trace.filterMap Event.logged := by
    rw [hlogged]
    exact List.mem_map_of_mem hq
  obtain ⟨ev, hev, htext⟩ := List.mem_filterMap.mp hline
  have hevent : ev = .logLine q.logText := by
    cases ev <;> first | cases htext; rfl | cases htext
  exact ⟨q, hq, hbuf, hdone, hevent ▸ hev,
    q.recounts he hf.unstaged (processedRun_bodyLen h0 q hq) hclient⟩

def verboseEnv : Env :=
  { oneDirectory.env workingEnv with flags := ⟨false, true, false, false, false⟩ }

def headListing : List PollAnswer :=
  [.ready { acceptRound [7] with env := fun _ => verboseEnv },
    .ready (readRound verboseEnv
      [.data ⟨ascii "HEAD /d HTTP/1.0" ++ headerEnd, by decide, by decide⟩ true]),
    .ready { writeRound [.ret 1000] with env := fun _ => verboseEnv }]

theorem log_recounts_responses_listing :
    ∃ s, eventLoop startServer headListing = .ok s ∧ ∃ x ∈ endings s.trace, x.sent ≠ [] ∧
      ∃ line, .logLine line ∈ s.trace ∧ ∃ head : Head,
        HttpMessage.read x.sent = some (head.message []) ∧
        ∃ before, line = before ++ (head.code ++ ascii " 0\n") := by
  have henv : ∀ r, .ready r ∈ headListing → ∀ fd, r.env fd = verboseEnv := by
    intro r hr fd
    simp only [headListing, List.mem_cons, List.not_mem_nil, or_false,
      PollAnswer.ready.injEq] at hr
    rcases hr with rfl | rfl | rfl <;> rfl
  have hplain : PlainEnv verboseEnv := by
    obtain ⟨hnow, htimes, hmagic, hout⟩ := (workingEnv_site oneDirectory).2
    exact ⟨hnow, htimes, hmagic, hout⟩
  have hall : (processedRun startServer headListing).all (fun q => decide
      ((parsed q.env q.client q.buf).out.method = .head ∧
        ¬ FromScript q.env q.round q.client q.buf ∧
        FromListing q.env q.round q.client q.buf)) = true := by decide +kernel
  obtain ⟨s, hs, ht⟩ := Run.arrives_iff.mp (show Run.arrives
    (fun s => (endings s.trace).any fun x => decide (x.sent ≠ []))
    (eventLoop startServer headListing) = true by decide +kernel)
  obtain ⟨x, hx, hsent⟩ := List.any_eq_true.mp ht
  obtain ⟨q, hq, -, -, hline, head, body, hread, hrec⟩ := log_recounts_responses setup_startServer hs
    (fun r hr fd => by rw [henv r hr fd]; rfl) (fun r hr fd => by rw [henv r hr fd]; exact hplain)
    x hx (of_decide_eq_true hsent)
  obtain ⟨hm, hn, hl⟩ := of_decide_eq_true (List.all_eq_true.mp hall q hq)
  obtain ⟨rfl, hsize⟩ := hrec.announced hm hn
  obtain ⟨before, htext⟩ := hrec.line
  rw [hsize, if_pos hl] at htext
  refine ⟨s, hs, x, hx, of_decide_eq_true hsent, _, hline, head, hread, before, ?_⟩
  rw [htext, List.append_assoc, List.append_assoc]
  rfl

end SimpleServer
