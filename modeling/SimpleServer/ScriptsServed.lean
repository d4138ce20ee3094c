import SimpleServer.ScriptOutput
import SimpleServer.OutsideCalls
import SimpleServer.StaticSite

/-!
# What the peer of a script reads

A file below `./cgi-bin/` is never sent. With `-c` a child is run for each
request that names it, and the peer reads all that this child wrote, to a
`HEAD` as to a `GET`, if every call made for the child succeeds and it exits
with 0, and the page of an error otherwise; without `-c` it reads that scripts
are not served.
-/

namespace SimpleServer

open CString FileTree Pathname

def FileSystem.Script (fs : FileSystem) (target : Bytes) : Prop :=
  ascii "/cgi-bin/" <+: component target ∧ ∃ q, ReadsFile fs (dot ++ component target) q

def ScriptFits (target : Bytes) : Prop := (component target).length ≤ pathMax - 2

def childOutput (cgi : CgiRun) : Option Bytes :=
  if cgi.pipe = true ∧ cgi.fork = true ∧ cgi.malloc = true ∧ cgi.waitpid = true ∧
      cgi.status = .exited 0 ∧ cgi.outMalloc = true then
    cgiCollect cgiCapacity [] cgi.reads
  else none

/-- What a peer reads that asked for the script with the method `m`, its
request being `q`. -/
structure ScriptRead (fs : FileSystem) (q : Processed) (m target sent : Bytes) : Prop where
  disabled : q.env.flags.c = false → (Page.failure .resp501).Read fs m sent
  failed : q.env.flags.c = true → childOutput q.env.cgi = none →
    (Page.failure .resp500).Read fs m sent
  output : ∀ got, q.env.flags.c = true → childOutput q.env.cgi = some got →
    (∃ call, .run call ∈ q.asks ∧ call.path = dot ++ component target) ∧
    (WellRead cgiCapacity 0 q.env.cgi.reads → got = written q.env.cgi.reads) ∧
    ∃ head : Head, head.code = ascii "200" ∧ head.len = got.length ∧
      head.mime = ascii "text/html" ∧ HttpMessage.read sent = some (head.message got)

section Resolving

variable {fs : FileSystem} {env : Env} {round : ℕ} {c : Client} {buf : Bytes}

theorem script_resolved (hserves : Serves fs env) (hlen : ScriptFits (parsed env c buf).out.path)
    (hscript : fs.Script (parsed env c buf).out.path) :
    (env.flags.c = false → (resolved env round c buf).ret = -1 ∧
      (resolved env round c buf).client.respVal = .resp501) ∧
    (env.flags.c = true → (resolved env round c buf).ret = 0 ∧
      (resolved env round c buf).rp.pathType = .isCgi) := by
  obtain ⟨hcgi, node, hopen, st, hst, hfile⟩ := hscript
  have hlocal : localPath (parsed env c buf).out.path =
      dot ++ component (parsed env c buf).out.path := localPath_exact_iff.mpr hlen
  have hincludes : pathIncludesCgi (localPath (parsed env c buf).out.path) = true := by
    rw [localPath_eq_take, pathIncludesCgi_cut]
    exact hcgi
  have he : fs.env env = env := Eq.symm hserves
  have hopened : fs.fopen (localPath (parsed (fs.env env) c buf).out.path) = .ok node := by
    rw [he, hlocal]
    exact hopen
  obtain ⟨hrefused, hgo⟩ : _ ∧ (_ → (resolved (fs.env env) round c buf).ret = 0 ∧ _) :=
    resolved_routes hopened hst
  rw [he] at hrefused hgo
  constructor
  · exact fun hflag => hrefused ⟨hincludes, hflag⟩
  · intro hflag
    have hnot : ¬ (pathIncludesCgi (localPath (parsed env c buf).out.path) = true ∧
        env.flags.c = false) := by
      rw [hflag]
      exact fun h => by cases h.2
    exact ⟨(hgo hnot).1, (hgo hnot).2.mpr ⟨hincludes, hfile⟩⟩

theorem cgiOutput_child (hflag : env.flags.c = true) :
    cgiOutput env (resolved env round c buf).rp = childOutput env.cgi := by
  have hquery : (resolved env round c buf).rp.queryString.length ≤ pathMax := resolved_query
  rw [cgiOutput, childOutput]
  exact if_congr (by simp [hflag, hquery]) rfl rfl

end Resolving

section Answers

variable {fs : FileSystem} {env : Env} {round : ℕ} {c : Client} {buf got m sent : Bytes}
  {q : Processed}

theorem respond_script (he : PlainEnv env) (hc : c.outBuf = none)
    (hp : (parsed env c buf).ret = 0) (hr : (resolved env round c buf).ret = 0)
    (hkind : (resolved env round c buf).rp.pathType = .isCgi)
    (hout : cgiOutput env (resolved env round c buf).rp = some got)
    (ho : (respond env round c buf).client.outBuf = some sent) :
    ∃ head : Head, head.code = ascii "200" ∧ head.len = got.length ∧
      head.mime = ascii "text/html" ∧ HttpMessage.read sent = some (head.message got) := by
  have hfrom : FromScript env round c buf := ⟨hp, hr, hkind, by rw [hout]; rfl⟩
  have hresponse : response env round c buf =
      (cgiHeader (parsed env c buf).out got.length, got) := by
    simp [response, hp, hr, delivery, hkind, hout]
  have hsent : sent = cgiHeader (parsed env c buf).out got.length ++ got := by
    rw [respond_outBuf he.output hc, if_pos hfrom, hresponse] at ho
    split_ifs at ho
    exact (Option.some.inj ho).symm
  have hdate : OneLine (parsed env c buf).out.timeReceived := parsed_time_oneLine he
  have hhead := okHead_isHead hdate (fun _ ht => by cases ht)
    (show OneLine (ascii "text/html") by decide) (cgiHeader_lines _ got.length)
  exact ⟨_, rfl, rfl, rfl, read_staged hhead hsent⟩

theorem Processed.scriptRead (hserves : Serves fs q.env) (he : PlainEnv q.env)
    (hc : q.client.outBuf = none) (hp : (parsed q.env q.client q.buf).ret = 0)
    (hm : (parsed q.env q.client q.buf).out.method = if m = ascii "GET" then .get else .head)
    (hlen : ScriptFits (parsed q.env q.client q.buf).out.path)
    (hscript : fs.Script (parsed q.env q.client q.buf).out.path)
    (ho : q.done.outBuf = some sent) :
    ScriptRead fs q m (parsed q.env q.client q.buf).out.path sent := by
  obtain ⟨hoff, hon⟩ : (_ → (resolved q.env q.round q.client q.buf).ret = -1 ∧ _) ∧ _ :=
    script_resolved hserves hlen hscript
  refine ⟨fun hflag => ?_, fun hflag hnone => ?_, fun got hflag hgot => ?_⟩
  · obtain ⟨hret, hcode⟩ := hoff hflag
    have hr : (resolved q.env q.round q.client q.buf).ret ≠ 0 := by
      rw [hret]
      decide
    refine respond_failure he hc hm (fun hs => hr hs.2.1) (by decide) ?_ ho
    rw [response, if_pos hp, if_neg hr, hcode]
  · obtain ⟨hr, hkind⟩ := hon hflag
    have hout : cgiOutput q.env (resolved q.env q.round q.client q.buf).rp = none :=
      (cgiOutput_child hflag).trans hnone
    have hquery : ¬ pathMax < (resolved q.env q.round q.client q.buf).rp.queryString.length :=
      Nat.not_lt.mpr resolved_query
    have hnot : ¬ FromScript q.env q.round q.client q.buf := by
      intro hs
      have hsome := hs.2.2.2
      rw [hout] at hsome
      cases hsome
    refine respond_failure he hc hm hnot (by decide) ?_ ho
    simp [response, hp, hr, delivery, hkind, hout, failCode, hflag, hquery]
  · obtain ⟨hr, hkind⟩ := hon hflag
    have hread := respond_script he hc hp hr hkind ((cgiOutput_child hflag).trans hgot) ho
    rw [childOutput] at hgot
    split_ifs at hgot with hran
    refine ⟨⟨execCall q.client (resolved q.env q.round q.client q.buf).rp
      (parsed q.env q.client q.buf).out, ?_, ?_⟩, fun hwell => ?_, hread⟩
    · simp [Processed.asks, hp, hr, buildAsks, hkind, hflag, hran.1, hran.2.1]
    · exact scriptPath_eq (parsed_target hp).noNul
    · rw [cgiCollect_wellRead hwell] at hgot
      exact (Option.some.inj hgot).symm

end Answers

/-- Over a file system that stays as it is, a peer that names a script reads
what the child wrote that was run for its own request, or an error. -/
theorem scripts_served (fs : FileSystem) {pfds : ℕ → PollFd} {clients : ℕ → Client}
    {v4 v6 : Option ℕ} {s₀ s : Server} {answers : List PollAnswer}
    (h0 : setup pfds clients v4 v6 = .ok s₀) (h : eventLoop s₀ answers = .ok s)
    (hfs : ∀ r, .ready r ∈ answers → ∀ fd, Serves fs (r.env fd))
    (hplain : ∀ r, .ready r ∈ answers → ∀ fd, PlainEnv (r.env fd)) :
    ∀ x ∈ endings s.trace, x.sent ≠ [] → ∀ m target,
      askedFor x.client.received = some (m, target) → ScriptFits target → fs.Script target →
        ∃ q ∈ processedRun s₀ answers, x.client.received = q.buf ∧ q.done = x.client.asStaged ∧
          ScriptRead fs q m target x.sent := by
  intro x hx hne m target hasked hfit hscript
  obtain ⟨q, hq, hf, hbuf, hdone, hclient⟩ := ended_faithful h0 h hx hne
  obtain ⟨r, fd, hr, henv⟩ := hf.outside
  have hserves : Serves fs q.env := henv ▸ hfs r hr fd
  have he : PlainEnv q.env := henv ▸ hplain r hr fd
  rw [hbuf] at hasked
  obtain ⟨hp, hpath, hm⟩ := parsed_askedFor hf hasked
  rw [← hpath] at hfit hscript ⊢
  exact ⟨q, hq, hbuf, hdone, q.scriptRead hserves he hf.unstaged hp hm hfit hscript hclient⟩

def scriptRounds : List PollAnswer :=
  [.ready { acceptRound [7] with env := fun _ => scriptFs.env (exitingEnv 0) },
    .ready (readRound (scriptFs.env (exitingEnv 0))
      [.data ⟨ascii "HEAD /cgi-bin/x HTTP/1.0" ++ headerEnd, by decide, by decide⟩ true]),
    .ready { writeRound [.ret 1000] with env := fun _ => scriptFs.env (exitingEnv 0) }]

theorem scripts_served_exit_zero :
    ∃ s, eventLoop startServer scriptRounds = .ok s ∧ ∃ x ∈ endings s.trace,
      askedFor x.client.received = some (ascii "HEAD", ascii "/cgi-bin/x") ∧
      ∃ head : Head, head.len = 2 ∧ HttpMessage.read x.sent = some (head.message (ascii "hi")) := by
  have henv : ∀ r, .ready r ∈ scriptRounds → ∀ fd, r.env fd = scriptFs.env (exitingEnv 0) := by
    intro r hr fd
    simp only [scriptRounds, List.mem_cons, List.not_mem_nil, or_false,
      PollAnswer.ready.injEq] at hr
    rcases hr with rfl | rfl | rfl <;> rfl
  have hplain : PlainEnv (scriptFs.env (exitingEnv 0)) := by
    refine ⟨by decide, ?_, fun _ _ hm => (by cases hm), ?_⟩
    · intro t m hm
      cases hm
      decide
    · intro got hg
      cases hg
      decide
  have hscript : scriptFs.Script (ascii "/cgi-bin/x") :=
    ⟨by decide +kernel, scriptNode, by decide +kernel, ⟨false, 9, 0⟩, by decide +kernel, rfl⟩
  have hfits : ScriptFits (ascii "/cgi-bin/x") := by
    change (component (ascii "/cgi-bin/x")).length ≤ pathMax - 2
    decide +kernel
  obtain ⟨s, hs, ht⟩ := Run.arrives_iff.mp (show Run.arrives
    (fun s => (endings s.trace).any fun x => decide (x.sent ≠ [] ∧
      askedFor x.client.received = some (ascii "HEAD", ascii "/cgi-bin/x")))
    (eventLoop startServer scriptRounds) = true by decide +kernel)
  obtain ⟨x, hx, hw⟩ := List.any_eq_true.mp ht
  obtain ⟨hne, hasked⟩ := of_decide_eq_true hw
  obtain ⟨q, hq, -, -, hread⟩ := scripts_served scriptFs setup_startServer hs
    (fun r hr fd => henv r hr fd ▸ rfl) (fun r hr fd => by rw [henv r hr fd]; exact hplain)
    x hx hne _ _ hasked hfits hscript
  obtain ⟨r, fd, hr, hqenv⟩ := (processedRun_faithful setup_startServer q hq).outside
  rw [henv r hr fd] at hqenv
  have hchild : childOutput q.env.cgi = some (ascii "hi") := by
    rw [hqenv]
    decide +kernel
  obtain ⟨-, -, head, -, hlen, -, hmsg⟩ :=
    hread.output _ (by rw [hqenv]; rfl) hchild
  exact ⟨s, hs, x, hx, hasked, head, hlen, hmsg⟩

end SimpleServer
