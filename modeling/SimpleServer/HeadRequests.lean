import SimpleServer.BuildOutcomes
import SimpleServer.CgiRouting
import SimpleServer.Chunking

/-!
# `HEAD` requests beside `GET` requests

The two requests differ in their first word. The parser then differs in the
method it stores, `resolve_path` does not look at it, and the header that a
builder writes does not depend on it. The builders for files, directories and
errors stop behind the header; the CGI builder has no such branch, so that the
output of a script follows.
-/

namespace SimpleServer

open CString FileTree SlotArray

/-- The `HEAD` request stages what the `GET` request stages up to the end of
its header. -/
def HeadAgrees (get head : Client) : Prop :=
  ∀ out, get.outBuf = some out →
    head.outBuf = some (out.take get.headerLen) ∧ head.outputLength = get.headerLen ∧
      get.headerLen ≤ out.length

/-- The target is a script that is run and writes `got`. -/
structure RunsScript (env : Env) (path got : Bytes) : Prop where
  routed : pathIncludesCgi (localPath path) = true
  opened : ∃ node st, env.fopen .target (localPath path) = .ok node ∧
    env.fstat .target node = some st ∧ st.isDir = false
  granted : env.flags.c = true ∧ env.cgi.pipe = true ∧ env.cgi.fork = true ∧
    env.cgi.malloc = true ∧ env.cgi.waitpid = true ∧ env.cgi.status = .exited 0 ∧
    env.cgi.outMalloc = true
  output : cgiCollect cgiCapacity [] env.cgi.reads = some got

section Parsing

variable {env : Env} {c : Client} {out : Request} {resp : ClientResponse} {le le' : LogEntry}
  {m rest : Bytes}

/-- What the parser makes of the two requests. A malformed request is not
recognised as a `HEAD` request; the answer to it has no body. -/
structure SameButMethod (g h : ParseResult) : Prop where
  ret : h.ret = g.ret
  resp : h.resp = g.resp
  out : h.out = { g.out with method := h.out.method }
  method : g.out.method ≠ .head ∧
    (h.out.method = .head ∨ h.ret ≠ 0 ∧ h.resp = .resp400)

theorem determined400_sameButMethod :
    SameButMethod (determined400 out le) (determined400 out le') :=
  ⟨rfl, rfl, rfl, by simp [determined400], Or.inr ⟨by simp [determined400], rfl⟩⟩

theorem checkRequest_sameButMethod (out : Request) :
    SameButMethod (checkRequest { out with method := .get } resp le)
      (checkRequest { out with method := .head } resp le') := by
  simp only [checkRequest, determined400, reduceCtorEq, if_false]
  split_ifs
  · exact ⟨rfl, rfl, rfl, by simp, Or.inr ⟨by simp, rfl⟩⟩
  · exact ⟨rfl, rfl, rfl, by simp, Or.inr ⟨by simp, rfl⟩⟩
  all_goals exact ⟨rfl, rfl, rfl, by simp, Or.inl rfl⟩

theorem parseLine_sameButMethod (line : Bytes) :
    SameButMethod (parseLine (ascii "GET" ++ 32 :: line) out resp le)
      (parseLine (ascii "HEAD" ++ 32 :: line) out resp le') := by
  rw [parseLine_eq_tokens, parseLine_eq_tokens, tokens_run_append (by decide) (by decide),
    tokens_run_append (by decide) (by decide)]
  have hget : methodFromToken (ascii "GET") = .get := by decide
  have hhead : methodFromToken (ascii "HEAD") = .head := by decide
  match tokens 32 line with
  | [] => exact determined400_sameButMethod
  | [_] => exact determined400_sameButMethod
  | _ :: _ :: _ :: _ => exact determined400_sameButMethod
  | [p, v] =>
    simp only [hget, hhead]
    split_ifs
    · exact ⟨rfl, rfl, rfl, by simp, Or.inl rfl⟩
    · exact checkRequest_sameButMethod
        { out with version := versionFromToken v, path := strlcpy p pathMax }

theorem strnstr_behind {b : Byte} {w : Bytes} (hz : 0 ∉ m) (hb : b ∉ m) (rest : Bytes) (len : ℕ) :
    strnstr (m ++ rest) (b :: w) (m.length + len) =
      (strnstr rest (b :: w) len).map (· + m.length) := by
  have hcut : cstr ((m ++ rest).take (m.length + len)) = m ++ cstr (rest.take len) := by
    rw [List.take_length_add_append, cstr_append_of_notMem hz]
  rw [strnstr, strnstr, hcut, findSub_behind hb]

theorem requestLine_behind (hz : 0 ∉ m) (hb : 13 ∉ m) (rest : Bytes) (len : ℕ) :
    requestLine (m ++ rest) (m.length + len) = m ++ requestLine rest len := by
  have hend : (strnstr (m ++ rest) crlf (m.length + len)).getD (m.length + len) =
      m.length + (strnstr rest crlf len).getD len := by
    have hs : strnstr (m ++ rest) crlf (m.length + len) =
        (strnstr rest crlf len).map (· + m.length) := strnstr_behind hz hb rest len
    rw [hs]
    cases strnstr rest crlf len with
    | none => rfl
    | some k => exact Nat.add_comm _ _
  rw [requestLine, requestLine, hend, List.take_length_add_append, cstr_append_of_notMem hz]

theorem parsed_sameButMethod (env : Env) (c : Client) (rest : Bytes) (len : ℕ) :
    SameButMethod (parsed env { c with headerLen := 4 + len } (ascii "GET " ++ rest))
      (parsed env { c with headerLen := 5 + len } (ascii "HEAD " ++ rest)) := by
  have hget : strnstr (ascii "GET " ++ rest) headerEnd (4 + len) =
      (strnstr rest headerEnd len).map (· + 4) := strnstr_behind (by decide) (by decide) rest len
  have hhead : strnstr (ascii "HEAD " ++ rest) headerEnd (5 + len) =
      (strnstr rest headerEnd len).map (· + 5) := strnstr_behind (by decide) (by decide) rest len
  have hgline : requestLine (ascii "GET " ++ rest) (4 + len) =
      ascii "GET" ++ 32 :: requestLine rest len := requestLine_behind (by decide) (by decide) rest len
  have hhline : requestLine (ascii "HEAD " ++ rest) (5 + len) =
      ascii "HEAD" ++ 32 :: requestLine rest len :=
    requestLine_behind (by decide) (by decide) rest len
  simp only [parsed, parseRequest, hget, hhead, hgline, hhline, Option.map_eq_none_iff,
    Nat.add_eq_zero_iff, OfNat.ofNat_ne_zero, false_and, false_or]
  split
  · exact determined400_sameButMethod
  · exact parseLine_sameButMethod _

end Parsing

section Resolving

variable {env : Env} {round : ℕ} {c c' : Client} {req req' : Request} {rp : ResolvedPath}
  {cg ch : Client} {bg bh got : Bytes}

theorem resolvePath_congr (hfd : c'.fd = c.fd) (hresp : c'.respVal = c.respVal)
    (hpath : req'.path = req.path) :
    (resolvePath env round c' req' rp).ret = (resolvePath env round c req rp).ret ∧
      (resolvePath env round c' req' rp).rp = (resolvePath env round c req rp).rp ∧
      (resolvePath env round c' req' rp).client.respVal =
        (resolvePath env round c req rp).client.respVal := by
  simp only [resolvePath, resolveOpened, resolveDirectory, handleDirIndex, hfd, hpath]
  repeat' split
  all_goals simp_all

theorem resolved_sameButMethod (h : SameButMethod (parsed env cg bg) (parsed env ch bh))
    (hfd : ch.fd = cg.fd) :
    (resolved env round ch bh).ret = (resolved env round cg bg).ret ∧
      (resolved env round ch bh).rp = (resolved env round cg bg).rp ∧
      (resolved env round ch bh).client.respVal = (resolved env round cg bg).client.respVal :=
  resolvePath_congr hfd h.resp (by rw [h.out])

theorem delivery_method (m : HttpMethod) :
    delivery env rp { req with method := m } = delivery env rp req := by
  simp only [delivery]
  cases rp.pathType <;> rfl

theorem response_sameButMethod (h : SameButMethod (parsed env cg bg) (parsed env ch bh))
    (hfd : ch.fd = cg.fd) : response env round ch bh = response env round cg bg := by
  obtain ⟨hret, hrp, hcode⟩ : (resolved env round ch bh).ret = _ ∧ _ ∧ _ :=
    resolved_sameButMethod h hfd
  have hdel : delivery env (resolved env round cg bg).rp (parsed env ch bh).out =
      delivery env (resolved env round cg bg).rp (parsed env cg bg).out := by
    rw [h.out]
    exact delivery_method _
  have herr : ∀ code, errorDelivery (parsed env ch bh).out code =
      errorDelivery (parsed env cg bg).out code := by
    intro code
    rw [h.out]
    rfl
  simp only [response, h.ret, h.resp, hret, hrp, hcode, hdel, herr]

theorem fromScript_sameButMethod (h : SameButMethod (parsed env cg bg) (parsed env ch bh))
    (hfd : ch.fd = cg.fd) : FromScript env round ch bh ↔ FromScript env round cg bg := by
  obtain ⟨hret, hrp, -⟩ : (resolved env round ch bh).ret = _ ∧ _ ∧ _ :=
    resolved_sameButMethod h hfd
  simp only [FromScript, h.ret, hret, hrp]

theorem resolvePath_script (hr : pathIncludesCgi (localPath req.path) = true)
    (hf : env.flags.c = true) {node : Node} {st : Stat}
    (ho : env.fopen .target (localPath req.path) = .ok node)
    (hs : env.fstat .target node = some st) (hd : st.isDir = false) :
    (resolvePath env round c req rp).ret = 0 ∧
      (resolvePath env round c req rp).rp.pathType = .isCgi := by
  simp [resolvePath, resolveOpened, ho, hs, hr, hf, hd]

theorem resolvePath_isCgi (h : (resolvePath env round c req rp).ret = 0)
    (ht : (resolvePath env round c req rp).rp.pathType = .isCgi) :
    ∃ node st, env.fopen .target (localPath req.path) = .ok node ∧
      env.fstat .target node = some st ∧ st.isDir = false := by
  obtain ⟨node, st, ho, hs, hgo⟩ := resolvePath_found h
  refine ⟨node, st, ho, hs, ?_⟩
  by_contra hd
  rw [Bool.not_eq_false] at hd
  simp only [resolvePath, ho, hs, resolveOpened, hd, hgo, if_true, if_false, resolveDirectory,
    handleDirIndex] at h ht
  repeat' split at ht
  all_goals simp_all

theorem fromScript_iff (hp : (parsed env c bg).ret = 0) :
    FromScript env round c bg ∧ (response env round c bg).2 = got ↔
      RunsScript env (parsed env c bg).out.path got := by
  have hquery : (resolved env round c bg).rp.queryString.length ≤ pathMax := by
    have hq : (resolved env round c bg).rp.queryString = _ :=
      resolvePath_queryString env round _ (parsed env c bg).out .zero
    rw [hq, storeQuery]
    split
    · exact (List.length_take_le _ _).trans (by decide)
    · exact Nat.zero_le _
  have hbody : FromScript env round c bg → ∀ got',
      cgiOutput env (resolved env round c bg).rp = some got' →
      (response env round c bg).2 = got' := by
    rintro ⟨-, hr, hcgi, -⟩ got' hout
    rw [response, if_pos hp, if_pos hr, delivery, hcgi]
    simp only [hout, Option.map_some, Option.getD_some]
  constructor
  · rintro ⟨hs, rfl⟩
    obtain ⟨got', hout⟩ := Option.isSome_iff_exists.mp hs.2.2.2
    obtain ⟨⟨hflag, hpipe, -, hfork, hmalloc, hwait, hexit, hmem⟩, hread⟩ := cgiOutput_some hout
    rw [hbody hs got' hout]
    exact ⟨resolvePath_cgi hs.2.1 hs.2.2.1, resolvePath_isCgi hs.2.1 hs.2.2.1,
      ⟨hflag, hpipe, hfork, hmalloc, hwait, hexit, hmem⟩, hread⟩
  · intro hs
    obtain ⟨node, st, ho, hst, hd⟩ := hs.opened
    obtain ⟨hflag, hpipe, hfork, hmalloc, hwait, hexit, hmem⟩ := hs.granted
    have hr : (resolved env round c bg).ret = 0 ∧
        (resolved env round c bg).rp.pathType = .isCgi :=
      resolvePath_script hs.routed hflag ho hst hd
    have hout : cgiOutput env (resolved env round c bg).rp = some got := by
      rw [cgiOutput, if_pos ⟨hflag, hpipe, hquery, hfork, hmalloc, hwait, hexit, hmem⟩]
      exact hs.output
    have hscript : FromScript env round c bg := ⟨hp, hr.1, hr.2, by rw [hout]; rfl⟩
    exact ⟨hscript, hbody hscript got hout⟩

end Resolving

section Agreement

variable {env : Env} {round : ℕ} {c cg ch : Client} {p : PollFd} {s bg bh header body sent : Bytes}

theorem outcomeOf_built {k : ℕ} (h : strnstr s headerEnd s.length = some k) :
    (outcomeOf env round c p s).client =
      { (built env round { c with headerLen := k + 4 } s).client with state := .sendingHeader } := by
  have ht : outcomeOf env round c p s = serve env round { c with headerLen := k + 4 } p s := by
    rw [outcomeOf, h]
    exact serve_take env round { c with headerLen := k + 4 } p s
  rw [ht, serve, respond_built]

theorem built_ret_sameButMethod (hfit : OutputFits env)
    (h : SameButMethod (parsed env cg bg) (parsed env ch bh)) (hfd : ch.fd = cg.fd) :
    (built env round ch bh).ret = 0 ↔ (built env round cg bg).ret = 0 := by
  obtain ⟨hret, hrp, -⟩ : (resolved env round ch bh).ret = _ ∧ _ ∧ _ :=
    resolved_sameButMethod h hfd
  have hdel : delivery env (resolved env round cg bg).rp (parsed env ch bh).out =
      delivery env (resolved env round cg bg).rp (parsed env cg bg).out := by
    rw [h.out]
    exact delivery_method _
  rw [built_ret_iff hfit, built_ret_iff hfit, h.ret, hret, hrp, hdel]

theorem headAgrees_staged {g h : BuildResult} (hg : Stages g header body)
    (hh : Stages h header sent) : HeadAgrees g.client h.client ↔ sent = [] := by
  have htake : (header ++ body).take g.client.headerLen = header := by
    rw [hg.headerLen]
    exact List.take_left
  constructor
  · intro ha
    have ho := (ha _ hg.outBuf).1
    rw [hh.outBuf, htake, Option.some.injEq] at ho
    exact List.append_right_eq_self.mp ho
  · rintro rfl out ho
    rw [hg.outBuf] at ho
    cases ho
    refine ⟨?_, ?_, ?_⟩
    · rw [hh.outBuf, htake, List.append_nil]
    · rw [hh.outputLength, hg.headerLen]
      rfl
    · rw [hg.headerLen, List.length_append]
      omega

theorem sentBody_head (h : SameButMethod (parsed env cg bg) (parsed env ch bh)) :
    sentBody (parsed env ch bh).out (response env round ch bh).2 = [] := by
  rcases h.method.2 with hm | ⟨hret, hresp⟩
  · rw [sentBody, if_pos hm]
  · rw [sentBody, response, if_neg hret, hresp]
    exact ite_self _

theorem headAgrees_built (hfit : OutputFits env) (hc : cg.outBuf = none)
    (h : SameButMethod (parsed env cg bg) (parsed env ch bh)) (hfd : ch.fd = cg.fd) :
    HeadAgrees (built env round cg bg).client (built env round ch bh).client ↔
      ¬ ((parsed env cg bg).ret = 0 ∧
        ∃ got, RunsScript env (parsed env cg bg).out.path got ∧ got ≠ []) := by
  have hruns : ∀ got, (parsed env cg bg).ret = 0 → RunsScript env (parsed env cg bg).out.path got →
      FromScript env round cg bg ∧ (response env round cg bg).2 = got :=
    fun got hp hs => (fromScript_iff hp).mpr hs
  by_cases hg : (built env round cg bg).ret = 0
  · have hgs := (built_stages hfit hg).1
    have hhs := (built_stages hfit ((built_ret_sameButMethod hfit h hfd).mpr hg)).1
    have hempty : sentBody (parsed env ch bh).out (response env round ch bh).2 = [] :=
      sentBody_head h
    rw [response_sameButMethod h hfd] at hhs hempty
    rw [headAgrees_staged hgs hhs]
    by_cases hf : FromScript env round cg bg
    · rw [if_pos ((fromScript_sameButMethod h hfd).mpr hf)]
      constructor
      · rintro hnil ⟨hp, got, hs, hne⟩
        exact hne ((hruns got hp hs).2.symm.trans hnil)
      · intro hn
        by_contra hne
        exact hn ⟨hf.1, _, (fromScript_iff hf.1).mp ⟨hf, rfl⟩, hne⟩
    · rw [if_neg fun hf' => hf ((fromScript_sameButMethod h hfd).mp hf')]
      refine iff_of_true hempty ?_
      rintro ⟨hp, got, hs, -⟩
      exact hf (hruns got hp hs).1
  · have hnone := built_unstaged hg hc
    refine iff_of_true (fun out ho => ?_) ?_
    · rw [hnone] at ho
      cases ho
    · rintro ⟨hp, got, hs, -⟩
      obtain ⟨-, hr, hcgi, hout⟩ := (hruns got hp hs).1
      apply hg
      refine (built_ret_iff hfit).mpr (Or.inr ⟨hp, hr, ?_⟩)
      rw [delivery, hcgi]
      simpa using hout

end Agreement

/-- A `HEAD` request stages the header of the `GET` request for the same target
and nothing else if and only if no script is run that writes something. -/
theorem head_agrees_iff (env : Env) (round : ℕ) (c : Client) (p : PollFd) (rest : Bytes) (k : ℕ)
    (hfit : OutputFits env) (hc : c.outBuf = none)
    (hk : strnstr (ascii "GET " ++ rest) headerEnd (ascii "GET " ++ rest).length = some k) :
    let g := parsed env { c with headerLen := k + 4 } (ascii "GET " ++ rest)
    HeadAgrees (outcomeOf env round c p (ascii "GET " ++ rest)).client
        (outcomeOf env round c p (ascii "HEAD " ++ rest)).client ↔
      ¬ (g.ret = 0 ∧ ∃ got, RunsScript env g.out.path got ∧ got ≠ []) := by
  intro g
  have hget : strnstr (ascii "GET " ++ rest) headerEnd (4 + rest.length) =
      (strnstr rest headerEnd rest.length).map (· + 4) :=
    strnstr_behind (by decide) (by decide) rest _
  have hhead : strnstr (ascii "HEAD " ++ rest) headerEnd (5 + rest.length) =
      (strnstr rest headerEnd rest.length).map (· + 5) :=
    strnstr_behind (by decide) (by decide) rest _
  have hlen : (ascii "GET " ++ rest).length = 4 + rest.length := List.length_append
  have hlen' : (ascii "HEAD " ++ rest).length = 5 + rest.length := List.length_append
  rw [← hlen] at hget
  rw [← hlen'] at hhead
  have hj := hget.symm.trans hk
  rw [Option.map_eq_some_iff] at hj
  obtain ⟨j, hj, rfl⟩ := hj
  rw [hj, Option.map_some] at hhead
  have h : SameButMethod g (parsed env { c with headerLen := j + 5 + 4 } (ascii "HEAD " ++ rest)) := by
    have hsame := parsed_sameButMethod env c rest (j + 4)
    rw [show 4 + (j + 4) = j + 4 + 4 by omega, show 5 + (j + 4) = j + 5 + 4 by omega] at hsame
    exact hsame
  rw [outcomeOf_built hk, outcomeOf_built hhead]
  have hnone : ({ c with headerLen := j + 4 + 4 } : Client).outBuf = none := hc
  exact headAgrees_built hfit hnone h rfl

theorem head_agrees_iff_listing :
    let env := (onlyTarget (ascii "/a")).env workingEnv
    let rest := ascii "/a HTTP/1.0\r\n\r\n"
    let stage := fun m => (outcomeOf env 0 blankClient ⟨7, pollIn, 0⟩ (ascii m ++ rest)).client
    (stage "GET ").respVal = .resp200 ∧ HeadAgrees (stage "GET ") (stage "HEAD ") := by
  intro env rest stage
  have hfit : OutputFits env := by
    intro got hg
    cases hg
    decide
  refine ⟨by decide +kernel,
    (head_agrees_iff env 0 blankClient ⟨7, pollIn, 0⟩ rest 15 hfit rfl (by decide +kernel)).mpr ?_⟩
  rintro ⟨-, got, hs, -⟩
  exact absurd hs.routed (by decide +kernel)

def greeting : CgiRun where
  pipe := true
  fork := true
  malloc := true
  reads := [(true, .data 104 [105]), (true, .eof)]
  waitpid := true
  status := .exited 0
  outMalloc := true

/-- Two bytes of a script's output are sent to a `HEAD` request. -/
theorem script_output_sent_to_head :
    let env := scriptFs.env { workingEnv with cgi := greeting }
    let rest := ascii "/cgi-bin/x HTTP/1.0\r\n\r\n"
    let stage := fun m => (outcomeOf env 0 blankClient ⟨7, pollIn, 0⟩ (ascii m ++ rest)).client
    (stage "GET ").respVal = .resp200 ∧
      (stage "HEAD ").outputLength = (stage "GET ").headerLen + 2 ∧
      ¬ HeadAgrees (stage "GET ") (stage "HEAD ") := by
  intro env rest stage
  have hlen : (stage "HEAD ").outputLength = (stage "GET ").headerLen + 2 := by decide +kernel
  refine ⟨by decide +kernel, hlen, fun h => ?_⟩
  obtain ⟨out, ho⟩ := Option.isSome_iff_exists.mp
    (show (stage "GET ").outBuf.isSome = true by decide +kernel)
  have hhead := (h out ho).2.1
  omega

end SimpleServer
