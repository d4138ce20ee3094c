import SimpleServer.ClosedTwice

/-!
# One response for every complete request

Every failure exit of the parser, of `resolve_path` and of the builders leaves
an error code in `resp_val` before `build_error_response` looks it up, so a
served client always has a response staged that begins with the code of its
`resp_val`; the log line carries the same code. A client that is sending is
never read again. `do_read` stops short of this in one case: where `fstat` fails
on what has been opened, it closes a stream that is closed.
-/

namespace SimpleServer

open CString FileTree SlotArray

/-- The staged response begins with the status code of `resp_val`. -/
structure Staged (c : Client) : Prop where
  code : c.respVal ≠ .numClientResp
  response : ∃ out, c.outBuf = some out ∧
    ascii "HTTP/1.0 " ++ respValToStatusString c.respVal <+: out
  length : 0 < c.outputLength

theorem Staged.of_begins {c : Client} {out : Bytes} (hc : c.respVal ≠ .numClientResp)
    (ho : c.outBuf = some out) (hl : out.length ≤ c.outputLength)
    (hb : ascii "HTTP/1.0 " ++ respValToStatusString c.respVal <+: out) : Staged c := by
  refine ⟨hc, ⟨out, ho, hb⟩, ?_⟩
  have hlen := hb.length_le
  have h9 : (ascii "HTTP/1.0 ").length = 9 := rfl
  rw [List.length_append, h9] at hlen
  omega

theorem errorResponses_code {r : ClientResponse} (h : r.isError = true) :
    respValToStatusString r <+: (errorResponses r).statusLine := by
  cases r with
  | resp200 => cases h
  | numClientResp => cases h
  | _ => decide +kernel

theorem statusLine_begins {code status : Bytes} (h : code <+: status) :
    ascii "HTTP/1.0 " ++ code <+: statusLine status := by
  obtain ⟨t, rfl⟩ := h
  rw [statusLine, ← List.append_assoc, List.append_assoc]
  exact List.prefix_append _ _

theorem errorHeader_begins {r : ClientResponse} (h : r.isError = true) (req : Request) :
    ascii "HTTP/1.0 " ++ respValToStatusString r <+: errorHeader req (errorResponses r) := by
  apply (statusLine_begins (errorResponses_code h)).trans
  simp only [errorHeader, List.append_assoc]
  exact List.prefix_append _ _

section OkHeaders

variable (req : Request) (modTime : Bytes) (len : ℕ)

theorem ok_begins : ascii "HTTP/1.0 " ++ respValToStatusString .resp200 <+:
    statusLine (ascii "200 OK") := statusLine_begins (by decide +kernel)

theorem cgiHeader_begins : ascii "HTTP/1.0 " ++ respValToStatusString .resp200 <+:
    cgiHeader req len := by
  apply ok_begins.trans
  simp only [cgiHeader, List.append_assoc]
  exact List.prefix_append _ _

theorem dirHeader_begins : ascii "HTTP/1.0 " ++ respValToStatusString .resp200 <+:
    dirHeader req modTime len := by
  apply ok_begins.trans
  simp only [dirHeader, List.append_assoc]
  exact List.prefix_append _ _

theorem fileHeader_begins (mime : Option Bytes) :
    ascii "HTTP/1.0 " ++ respValToStatusString .resp200 <+: fileHeader req modTime mime len := by
  apply ok_begins.trans
  simp only [fileHeader, List.append_assoc]
  exact List.prefix_append _ _

end OkHeaders

section Builders

variable {env : Env} {round : ℕ} {c : Client} {rp : ResolvedPath} {req : Request}

theorem isError_range (h : c.respVal.isError = true) :
    ¬ (c.respVal.toNat < ClientResponse.resp400.toNat ∨
      ClientResponse.numClientResp.toNat ≤ c.respVal.toNat) := by
  simp only [ClientResponse.isError, decide_eq_true_eq] at h
  omega

theorem isError_code {r : ClientResponse} (h : r.isError = true) : r ≠ .numClientResp := by
  intro hn
  rw [hn] at h
  cases h

theorem buildErrorResponse_staged (h : c.respVal.isError = true) (hs : env.errorStream = true) :
    Staged (buildErrorResponse env round c req).client := by
  have hb := errorHeader_begins h req
  rw [buildErrorResponse, if_neg (isError_range h), if_neg (by simp [hs])]
  simp only
  split
  · exact .of_begins (isError_code h) rfl le_rfl hb
  · exact .of_begins (isError_code h) rfl le_rfl (hb.trans (List.prefix_append _ _))

/-- A builder that succeeds has staged a response; one that fails leaves
`RESP_200` or an error code. -/
structure BuildVerdict (b : BuildResult) : Prop where
  staged : ¬ b.ret < 0 → Staged b.client
  failed : b.ret < 0 → b.client.respVal = .resp200 ∨ b.client.respVal.isError = true

theorem BuildVerdict.of_failed {b : BuildResult} (hr : b.ret = -1)
    (h : b.client.respVal = .resp200 ∨ b.client.respVal.isError = true) : BuildVerdict b :=
  ⟨fun hn => absurd (by rw [hr]; decide) hn, fun _ => h⟩

theorem BuildVerdict.of_built {b : BuildResult} {out : Bytes} (hr : b.ret = 0)
    (hc : b.client.respVal = .resp200) (ho : b.client.outBuf = some out)
    (hl : out.length ≤ b.client.outputLength)
    (hb : ascii "HTTP/1.0 " ++ respValToStatusString .resp200 <+: out) : BuildVerdict b := by
  constructor
  · intro _
    apply Staged.of_begins _ ho hl
    · rw [hc]
      exact hb
    · rw [hc]
      decide
  · intro hn
    rw [hr] at hn
    cases hn

theorem buildResponseCgi_verdict (hc : c.respVal = .resp200) :
    BuildVerdict (buildResponseCgi env round c rp req) := by
  simp only [buildResponseCgi]
  repeat' split
  all_goals first
    | exact .of_failed rfl (Or.inr rfl)
    | refine .of_built rfl hc rfl ?_ (.trans ?_ (List.prefix_append _ _))
  · rename_i got _ _ _ _
    have ht := List.length_take_le' (maxHeaderBuf - 1) (cgiHeader req got.length)
    rw [List.length_append]
    exact Nat.add_le_add_right ht _
  · rename_i got _ _ _ _
    have hb := cgiHeader_begins req got.length
    exact List.prefix_take_iff.mpr ⟨hb, by decide +kernel⟩

theorem buildResponseDir_verdict (hc : c.respVal = .resp200) :
    BuildVerdict (buildResponseDir env round c rp req) := by
  simp only [buildResponseDir]
  split
  · exact .of_failed rfl (Or.inr rfl)
  split
  · exact .of_failed rfl (Or.inr rfl)
  split
  · exact .of_failed rfl (Or.inr rfl)
  split
  · exact .of_failed rfl (Or.inr rfl)
  split
  · exact .of_failed rfl (Or.inr rfl)
  split
  · exact .of_built rfl hc rfl le_rfl (dirHeader_begins _ _ _)
  · refine .of_built rfl hc rfl le_rfl ?_
    simp only [List.append_assoc]
    exact (dirHeader_begins _ _ _).trans (List.prefix_append _ _)

theorem buildResponseFile_verdict (hc : c.respVal = .resp200) :
    BuildVerdict (buildResponseFile env round c rp req) := by
  simp only [buildResponseFile]
  repeat' split
  · exact .of_failed rfl (Or.inr rfl)
  · exact .of_failed rfl (Or.inl hc)
  · exact .of_built rfl hc rfl le_rfl (fileHeader_begins _ _ _ _)
  · exact .of_built rfl hc rfl le_rfl ((fileHeader_begins _ _ _ _).trans (List.prefix_append _ _))

theorem buildByType_verdict (hc : c.respVal = .resp200) (hp : rp.pathType ≠ .unknown) :
    BuildVerdict (buildByType env round c rp req) := by
  cases ht : rp.pathType with
  | isCgi =>
    simp only [buildByType, ht]
    exact buildResponseCgi_verdict hc
  | isDir =>
    simp only [buildByType, ht]
    exact buildResponseDir_verdict hc
  | isFile =>
    simp only [buildByType, ht]
    exact buildResponseFile_verdict hc
  | unknown => exact absurd ht hp

theorem resetForError_isError {b : BuildResult} (h : BuildVerdict b) (hr : b.ret < 0) :
    (resetForError b.client).respVal.isError = true := by
  rcases h.failed hr with h | h
  · simp only [resetForError, h, if_true]
    rfl
  · have hne : b.client.respVal ≠ .resp200 := by
      intro he
      rw [he] at h
      cases h
    simp only [resetForError, hne, if_false]
    exact h

theorem buildOkayResponse_staged (hp : rp.pathType ≠ .unknown) (hs : env.errorStream = true) :
    Staged (buildOkayResponse env round c rp req).client := by
  have hv : BuildVerdict (buildByType env round { c with respVal := .resp200 } rp req) :=
    buildByType_verdict rfl hp
  simp only [buildOkayResponse]
  split
  · rename_i hr
    exact buildErrorResponse_staged (resetForError_isError hv hr) hs
  · rename_i hr
    exact hv.staged hr

end Builders

section Serving

variable {env : Env} {round : ℕ} {c : Client} {buf : Bytes}

/-- What the callees of `do_read` rely on: the parser is given a terminator,
`build_error_response` an error code and `build_okay_response` a decided kind
of resource. -/
structure CallsInRange (env : Env) (round : ℕ) (c : Client) (buf : Bytes) : Prop where
  terminated : c.headerLen ≠ 0 ∧ strnstr buf headerEnd c.headerLen ≠ none
  refused : (parsed env c buf).ret ≠ 0 → (parsed env c buf).resp.isError = true
  unresolved : (resolved env round c buf).ret ≠ 0 →
    (resolved env round c buf).client.respVal.isError = true
  decided : (resolved env round c buf).ret = 0 → (resolved env round c buf).rp.pathType ≠ .unknown
  failed : (resolved env round c buf).ret = 0 →
    let b := buildByType env round { (resolved env round c buf).client with respVal := .resp200 }
      (resolved env round c buf).rp (parsed env c buf).out
    b.ret < 0 → (resetForError b.client).respVal.isError = true

theorem callsInRange (h : c.headerLen ≠ 0 ∧ strnstr buf headerEnd c.headerLen ≠ none) :
    CallsInRange env round c buf := by
  have hv : ResolveVerdict _ (resolved env round c buf) := resolvePath_verdict env round _ _ _
  refine ⟨h, parseRequest_error, hv.failed, hv.decided, ?_⟩
  intro hr b hb
  exact resetForError_isError (buildByType_verdict rfl (hv.decided hr)) hb

theorem respond_staged (hs : env.errorStream = true) : Staged (respond env round c buf).client := by
  have hv : ResolveVerdict _ (resolved env round c buf) := resolvePath_verdict env round _ _ _
  by_cases hp : (parsed env c buf).ret = 0
  · by_cases hr : (resolved env round c buf).ret = 0
    · rw [respond_found hp hr]
      exact buildOkayResponse_staged (hv.decided hr) hs
    · rw [respond_unresolved hp hr]
      exact buildErrorResponse_staged (hv.failed hr) hs
  · rw [respond_refused hp]
    exact buildErrorResponse_staged (parseRequest_error hp) hs

end Serving

section LogLine

variable {env : Env} {round : ℕ} {c : Client} {p : PollFd} {buf : Bytes}

def Event.logged : Event → Option Bytes
  | .logLine line => some line
  | _ => none

/-- The log line of a request, `done` being the client with its response staged. -/
def logText (env : Env) (c : Client) (buf : Bytes) (done : Client) : Bytes :=
  c.clientAddr ++ ascii " " ++ (env.timeReceived.text ++ ascii " \"" ++
    requestLine buf c.headerLen ++ ascii "\" ") ++ (respValToStatusString done.respVal ++
    ascii " " ++ decimalInt done.bodyLen ++ ascii "\n")

theorem parseLine_le (line : Bytes) (out : Request) (resp : ClientResponse) (le : LogEntry) :
    (parseLine line out resp le).le = le := by
  simp only [parseLine, checkRequest, determined400]
  split
  · split_ifs <;> rfl
  · rfl

theorem parsed_le (h : c.headerLen ≠ 0 ∧ strnstr buf headerEnd c.headerLen ≠ none)
    (hl : env.flags.logging = true) :
    (parsed env c buf).le = logAppend (logAppend .zero (c.clientAddr ++ ascii " "))
      (env.timeReceived.text ++ ascii " \"" ++ requestLine buf c.headerLen ++ ascii "\" ") := by
  have hn : ¬ (c.headerLen = 0 ∨ strnstr buf headerEnd c.headerLen = none) := by
    rw [not_or]
    exact h
  simp only [parsed, parseRequest, hn, if_false, hl, if_true, parseLine_le]

theorem respond_le : (respond env round c buf).le = (parsed env c buf).le := by
  by_cases hp : (parsed env c buf).ret = 0
  · by_cases hr : (resolved env round c buf).ret = 0
    · rw [respond_found hp hr]
    · rw [respond_unresolved hp hr]
  · rw [respond_refused hp]

theorem decimal_length {n k : ℕ} (hk : 0 < k) (h : n < 10 ^ k) : (decimal n).length ≤ k := by
  rw [decimal, List.length_map]
  exact (Nat.length_toDigits_le_iff (by omega) hk).mpr h

theorem decimalInt_length (n : ℕ) : (decimalInt n).length ≤ 11 := by
  have hm : n % 2 ^ 32 < 2 ^ 32 := Nat.mod_lt _ (by decide)
  simp only [decimalInt]
  split
  · have h := decimal_length (by decide) (show n % 2 ^ 32 < 10 ^ 10 by omega)
    omega
  · have h := decimal_length (by decide) (show 2 ^ 32 - n % 2 ^ 32 < 10 ^ 10 by omega)
    have h1 : (ascii "-").length = 1 := rfl
    rw [List.length_append]
    omega

theorem decimalInt_noNul (n : ℕ) : 0 ∉ decimalInt n := by
  have hd := decimal_noNul
  have h1 : 0 ∉ ascii "-" := by decide
  simp only [decimalInt]
  split
  · exact hd _
  · rw [List.mem_append, not_or]
    exact ⟨h1, hd _⟩

theorem addrText_short (a : Option AddrText) :
    (addrText a).length < inet6AddrStrLen ∧ 0 ∉ addrText a := by
  cases a with
  | some a => exact ⟨a.short, a.noNul⟩
  | none => decide

theorem respond_entry (h : c.headerLen ≠ 0 ∧ strnstr buf headerEnd c.headerLen ≠ none)
    (hl : env.flags.logging = true) (haddr : c.clientAddr.length < inet6AddrStrLen)
    (hlen : (requestLine buf c.headerLen).length ≤ maxRequestSize) (resp : ClientResponse)
    (bodyLen : ℕ) :
    let addr := c.clientAddr ++ ascii " "
    let line := env.timeReceived.text ++ ascii " \"" ++ requestLine buf c.headerLen ++ ascii "\" "
    let result := respValToStatusString resp ++ ascii " " ++ decimalInt bodyLen ++ ascii "\n"
    (logAppend .zero addr).Holds addr ∧ (respond env round c buf).le.Holds (addr ++ line) ∧
      (logAppend (respond env round c buf).le result).Holds (addr ++ line ++ result) := by
  intro addr line result
  have hinet : inet6AddrStrLen = 46 := rfl
  have hmax : maxRequestSize = 8192 := rfl
  have hsize : logBufSize = 8320 := rfl
  have ha : addr.length ≤ 46 := by
    rw [List.length_append]
    exact haddr
  have ht : line.length ≤ 31 + 2 + 8192 + 2 := by
    have htime := env.timeReceived.short
    have htl : timeReceivedLength = 32 := rfl
    have h1 : (ascii " \"").length = 2 := rfl
    have h2 : (ascii "\" ").length = 2 := rfl
    simp only [line, List.length_append]
    omega
  have hr : result.length ≤ 3 + 1 + 11 + 1 := by
    have hcode := respValToStatusString_length resp
    have hbody := decimalInt_length bodyLen
    have h1 : (ascii " ").length = 1 := rfl
    have h2 : (ascii "\n").length = 1 := rfl
    simp only [result, List.length_append]
    omega
  have h1 : (logAppend .zero addr).Holds addr := LogEntry.zero_holds.append (by
    rw [List.length_nil]
    omega)
  have h2 : (respond env round c buf).le.Holds (addr ++ line) := by
    have hroom : addr.length + line.length < logBufSize := by omega
    rw [respond_le, parsed_le h hl]
    exact h1.append hroom
  refine ⟨h1, h2, h2.append ?_⟩
  rw [List.length_append]
  omega

theorem logServed_eq (h : c.headerLen ≠ 0 ∧ strnstr buf headerEnd c.headerLen ≠ none)
    (hl : env.flags.logging = true) (ha : ∃ a, c.clientAddr = addrText a)
    (hlen : (requestLine buf c.headerLen).length ≤ maxRequestSize) :
    logServed env.flags (respond env round c buf) =
      [.logLine (logText env c buf (respond env round c buf).client)] := by
  obtain ⟨a, ha⟩ := ha
  have haddr := addrText_short a
  rw [← ha] at haddr
  obtain ⟨-, -, hentry⟩ : _ ∧ _ ∧ (logAppend (respond env round c buf).le _).Holds _ :=
    respond_entry h hl haddr.1 hlen (respond env round c buf).client.respVal
      (respond env round c buf).client.bodyLen
  rw [logServed, if_pos hl, doLogging, hentry.buf, cstr_of_notMem]
  · rfl
  · simp only [List.mem_append, not_or]
    exact ⟨⟨⟨haddr.2, by decide⟩, ⟨⟨env.timeReceived.noNul, by decide⟩, zero_notMem_cstr _⟩,
      by decide⟩, ⟨⟨respValToStatusString_noNul _, by decide⟩, decimalInt_noNul _⟩, by decide⟩

theorem serve_logged (h : c.headerLen ≠ 0 ∧ strnstr buf headerEnd c.headerLen ≠ none)
    (ha : ∃ a, c.clientAddr = addrText a) (hlen : c.headerLen ≤ maxRequestSize) :
    (serve env round c p buf).events.filterMap Event.logged =
      if env.flags.logging then [logText env c buf (serve env round c p buf).client] else [] := by
  have hserve : ∀ ev ∈ (respond env round c buf).events, ev.logged = none := by
    intro ev hev
    have ho := respond_ofServe env round c buf ev hev
    cases ev with
    | logLine line => cases ho
    | _ => rfl
  have hclose : ∀ ev ∈ (closeResolvePathPtr (respond env round c buf).rp).2,
      ev.logged = none := by
    intro ev hev
    simp only [closeResolvePathPtr] at hev
    split at hev
    · rw [List.mem_singleton.mp hev]
      rfl
    · cases hev
  simp only [serve, List.filterMap_append, List.filterMap_eq_nil_iff.mpr hserve,
    List.filterMap_eq_nil_iff.mpr hclose, List.nil_append, List.append_nil]
  split
  · rename_i hl
    rw [logServed_eq h hl ha ((requestLine_length_le buf _).trans hlen)]
    rfl
  · rename_i hl
    rw [logServed, if_neg hl]
    rfl

end LogLine

theorem found_terminated {buf : Bytes} {n k : ℕ} (hk : strnstr buf headerEnd n = some k) :
    k + 4 ≤ n ∧ k + 4 ≠ 0 ∧ strnstr buf headerEnd (k + 4) ≠ none := by
  have hkle := findSub_cstr_le_length (by decide) hk
  have hfit : k + 4 ≤ n := hkle.trans (List.length_take_le _ _)
  refine ⟨hfit, Nat.succ_ne_zero _, ?_⟩
  have ht := findSub_cstr_take (by decide) hk (le_refl (k + 4))
  rw [List.take_take, Nat.min_eq_left hfit] at ht
  rw [strnstr, ht]
  exact Option.some_ne_none _

section Runs

variable {r : Round} {round : ℕ} {e e' : Entry} {v : Visit} {c : Client} {s s' : Server}
  {answers : List PollAnswer}

/-- What the log line relies on. -/
def Loggable (e : Entry) : Prop :=
  (∃ a, e.2.clientAddr = addrText a) ∧ e.2.inputLength ≤ maxRequestSize

theorem readEntry_left : ∃ c, (c = e.2 ∨ c = (recvLoop e.2 (r.recvs e.2.fd)).1) ∧
    ServeFrame { c with state := (readEntry r round e).client.state }
      (readEntry r round e).client := by
  simp only [readEntry]
  split
  · refine ⟨_, Or.inr rfl, ?_⟩
    rcases doRead_cases (r.env e.2.fd) round (r.recvs e.2.fd) e.2 e.1 with
      ⟨h, -⟩ | ⟨buf, k, -, -, -, -, h⟩
    · rw [h]
      exact ⟨rfl⟩
    · have hf : ServeFrame { (recvLoop e.2 (r.recvs e.2.fd)).1 with headerLen := k + 4 }
        (respond (r.env e.2.fd) round _ buf).client := respond_frame
      constructor
      rw [h]
      simp only [serve]
      rw [hf.eq]
  · exact ⟨e.2, Or.inl rfl, ⟨rfl⟩⟩

theorem readEntry_addr : (readEntry r round e).client.clientAddr = e.2.clientAddr := by
  obtain ⟨c, hc, hf⟩ : ∃ c, _ ∧ ServeFrame _ (readEntry r round e).client := readEntry_left
  have hserved := congrArg Client.clientAddr hf.eq
  have hrecv := congrArg Client.clientAddr (recvLoop_frame e.2 (r.recvs e.2.fd)).eq
  rcases hc with rfl | rfl
  · exact hserved
  · exact hserved.trans hrecv

theorem readEntry_loggable (hq : Loggable e) :
    Loggable ((readEntry r round e).pollFd, (readEntry r round e).client) := by
  obtain ⟨⟨a, ha⟩, hl⟩ := hq
  obtain ⟨c, hc, hf⟩ : ∃ c, _ ∧ ServeFrame _ (readEntry r round e).client := readEntry_left
  have hserved := congrArg Client.inputLength hf.eq
  refine ⟨⟨a, readEntry_addr.trans ha⟩, hserved.trans_le ?_⟩
  rcases hc with rfl | rfl
  · exact hl
  · exact recvLoop_length_le _ hl

theorem step_loggable {a : PollAnswer} (hs : Entrywise Loggable s) (h : s.step a = .ok s') :
    Entrywise Loggable s' := by
  refine step_entrywise (C := fun _ _ _ => True) ?_ (fun _ _ hq => hq) ?_ hs ?_ h
  · intro a e he
    obtain ⟨old, rfl⟩ := he
    exact ⟨⟨a.addr, rfl⟩, Nat.zero_le _⟩
  · intro r round e v e' hq _ hv hk
    rcases visitEntry_kept hv hk with ⟨rfl, -⟩ | ⟨-, -, rfl⟩
    · exact hq
    · exact readEntry_loggable hq
  · exact eachEntry_of_forall (fun _ _ _ => trivial) s a

theorem eventLoop_loggable (hs : Entrywise Loggable s) (h : eventLoop s answers = .ok s') :
    Entrywise Loggable s' :=
  Run.invariant (P := fun _ _ => True) (fun _ _ _ hi _ hstep => step_loggable hi hstep) hs
    (Run.along_of_forall (fun _ _ => trivial) _ _) h

theorem readEntry_sending (p : PollFd) (hc : c.state = .sendingHeader) :
    readEntry r round (p, c) = ⟨c, p, []⟩ := by
  apply if_neg
  intro h
  rw [hc] at h
  cases h.2

/-- Since `t₀` the client has not been touched, unless it has been closed. -/
def Settled (t₀ : List Event) (c : Client) (s : Server) : Prop :=
  ∃ ev, s.trace = t₀ ++ ev ∧ (c.fd ∈ closed ev ∨ ∃ e ∈ s.entries, e.2 = c)

theorem round_settled {new order : List Entry} (he : RoundEffect r s new order s')
    (h : e ∈ order) (hfd : e.2.fd = c.fd)
    (hkeep : ∀ v e', visitEntry r s.round e = .ok v → v.kept = some e' → e'.2 = c) :
    c.fd ∈ closed (order.flatMap (eventsOf r s.round)) ∨ ∃ e' ∈ s'.entries, e'.2 = c := by
  obtain ⟨v, hv⟩ := he.visited e h
  cases hk : v.kept with
  | none =>
    have hg := (visitEntry_facts hv).gone.mp hk
    rw [he.closed]
    exact Or.inl (List.mem_map.mpr ⟨e, List.mem_filter.mpr ⟨h, hg⟩, hfd⟩)
  | some e' =>
    have hleft : e' ∈ s'.entries := (mem_left he).mpr ⟨e, h, (keptBy_ok hv).1.trans hk⟩
    exact Or.inr ⟨e', hleft, hkeep v e' hv hk⟩

theorem step_settled {t₀ : List Event} {a : PollAnswer} (hl : Entrywise Loggable s)
    (hc : c.state = .sendingHeader) (hs : Settled t₀ c s) (h : s.step a = .ok s') :
    Settled t₀ c s' := by
  cases a with
  | eintr =>
    cases h
    exact hs
  | fatal => cases h
  | ready r =>
    obtain ⟨s₁, new, order, rfl, he⟩ := pollRound_ok hl.pos hl.least h
    obtain ⟨ev, htrace, hs⟩ := hs
    refine ⟨ev ++ order.flatMap (eventsOf r s.round), ?_, ?_⟩
    · exact he.trace.trans (by rw [htrace, List.append_assoc])
    rw [closed_append, List.mem_append]
    rcases hs with hs | ⟨e, hm, rfl⟩
    · exact Or.inl (Or.inl hs)
    · obtain ⟨m, hp⟩ := entry_polled r hm
      have hkeep : ∀ v e', visitEntry r s.round ({ e.1 with revents := m }, e.2) = .ok v →
          v.kept = some e' → e'.2 = e.2 := by
        intro v e' hv hk
        rcases visitEntry_kept hv hk with ⟨rfl, -⟩ | ⟨-, -, rfl⟩
        · rfl
        · rw [readEntry_sending _ hc]
      rcases round_settled he ((mem_order he).mpr (Or.inl hp)) rfl hkeep with h | h
      · exact Or.inl (Or.inr h)
      · exact Or.inr h

theorem eventLoop_settled {t₀ : List Event} (hl : Entrywise Loggable s)
    (hc : c.state = .sendingHeader) (hs : Settled t₀ c s) (h : eventLoop s answers = .ok s') :
    Settled t₀ c s' := by
  have hinv : Entrywise Loggable s' ∧ Settled t₀ c s' :=
    Run.invariant (I := fun s => Entrywise Loggable s ∧ Settled t₀ c s) (P := fun _ _ => True)
      (fun _ _ _ hi _ hstep => ⟨step_loggable hi.1 hstep, step_settled hi.1 hc hi.2 hstep⟩)
      ⟨hl, hs⟩ (Run.along_of_forall (fun _ _ => trivial) _ _) h
  exact hinv.2

/-- From the visit that staged its response on, a client is left alone until it
is closed. -/
theorem staged_settled (hl : Entrywise Loggable s) (he : e ∈ (s.polled r).entries)
    (hin : e.1.revents &&& pollIn ≠ 0)
    (hst : (readEntry r s.round e).client.state = .sendingHeader)
    (h : eventLoop s (.ready r :: answers) = .ok s') :
    Settled s.trace (readEntry r s.round e).client s' := by
  obtain ⟨s₁, h1, h2⟩ := Run.run_cons_ok h
  have hl₁ := step_loggable hl h1
  obtain ⟨t, new, order, rfl, hr⟩ := pollRound_ok hl.pos hl.least h1
  apply eventLoop_settled hl₁ hst _ h2
  refine ⟨order.flatMap (eventsOf r s.round), hr.trace, ?_⟩
  apply round_settled hr ((mem_order hr).mpr (Or.inl he)) readEntry_fd.1.symm
  intro v e' hv hk
  rcases visitEntry_kept hv hk with ⟨-, h0⟩ | ⟨-, -, rfl⟩
  · rw [h0] at hin
    exact absurd (by decide) hin
  · rfl

end Runs

/-- `do_read` comes to its end, with one response staged for the request in
`buf`, and stages no other one. -/
structure AnsweredOnce (s : Server) (r : Round) (e : Entry) (c : Client) (buf : Bytes)
    (o : ReadOutcome) : Prop where
  served : o = serve (r.env e.2.fd) s.round c e.1 buf
  survives : Survives o.events
  state : o.client.state = .sendingHeader
  events : o.pollFd.events = pollOut
  staged : Staged o.client
  logged : o.events.filterMap Event.logged = if (r.env e.2.fd).flags.logging then
    [logText (r.env e.2.fd) c buf o.client] else []
  calls : CallsInRange (r.env e.2.fd) s.round c buf
  once : ∀ later s', eventLoop s (.ready r :: later) = .ok s' →
    Settled s.trace o.client s' ∧
      ∀ r' round' p, readEntry r' round' (p, o.client) = ⟨o.client, p, []⟩

/-- Whatever else becomes of the calls made for it, a complete request is
answered once if and only if `fstat` does not fail on the target or the index
file that has been opened for it. -/
theorem complete_request_answered_once {pfds : ℕ → PollFd} {clients : ℕ → Client}
    {v4 v6 : Option ℕ} {s₀ s : Server} {answers : List PollAnswer}
    (h0 : setup pfds clients v4 v6 = .ok s₀) (h : eventLoop s₀ answers = .ok s)
    (r : Round) (e : Entry) (he : e ∈ (s.polled r).entries)
    (hin : e.1.revents &&& pollIn ≠ 0) (hst : e.2.state = .reading) (buf : Bytes) (k : ℕ)
    (hleft : (recvLoop e.2 (r.recvs e.2.fd)).2 = true)
    (hbuf : (recvLoop e.2 (r.recvs e.2.fd)).1.inBuf = some buf)
    (hk : strnstr buf headerEnd (recvLoop e.2 (r.recvs e.2.fd)).1.inputLength = some k)
    (hstream : (r.env e.2.fd).errorStream = true) :
    let c := { (recvLoop e.2 (r.recvs e.2.fd)).1 with headerLen := k + 4 }
    AnsweredOnce s r e c buf (readEntry r s.round e) ↔
      ((parsed (r.env e.2.fd) c buf).ret = 0 →
        streamFate (r.env e.2.fd) (parsed (r.env e.2.fd) c buf).out.path ≠ .unexamined) := by
  intro c
  have hl : Entrywise Loggable s := eventLoop_loggable (setup_entrywise h0) h
  obtain ⟨e₀, hm, m, hem⟩ := polled_entry he
  obtain ⟨⟨a, ha⟩, hlen⟩ : Loggable e := hem ▸ hl.all e₀ hm
  obtain ⟨hfit, hterm⟩ : _ ∧ c.headerLen ≠ 0 ∧ strnstr buf headerEnd c.headerLen ≠ none :=
    found_terminated hk
  have ho : readEntry r s.round e = serve (r.env e.2.fd) s.round c e.1 buf := by
    have hread : readEntry r s.round e =
        doRead (r.env e.2.fd) s.round (r.recvs e.2.fd) e.2 e.1 := if_pos ⟨hin, hst⟩
    exact hread.trans (doRead_serve hleft hbuf hk)
  have haddr : ∃ a, c.clientAddr = addrText a :=
    ⟨a, (congrArg Client.clientAddr (recvLoop_frame e.2 (r.recvs e.2.fd)).eq).trans ha⟩
  have hsend : (readEntry r s.round e).client.state = .sendingHeader := by rw [ho]; rfl
  have hstaged : Staged (respond (r.env e.2.fd) s.round c buf).client := respond_staged hstream
  constructor
  · intro hans
    exact serve_survives.mp (ho ▸ hans.survives)
  · intro hfate
    refine ⟨ho, ho ▸ serve_survives.mpr hfate, hsend, by rw [ho]; rfl, ?_, ?_,
      callsInRange hterm, ?_⟩
    · rw [ho]
      exact ⟨hstaged.code, hstaged.response, hstaged.length⟩
    · rw [ho]
      exact serve_logged hterm haddr (hfit.trans (recvLoop_length_le _ hlen))
    · intro later s' hrun
      exact ⟨staged_settled hl he hin hsend hrun, fun _ _ p => readEntry_sending p hsend⟩

theorem complete_request_answered_once_root :
    ∃ s, eventLoop startServer [.ready (acceptRound [7])] = .ok s ∧
      ∃ e ∈ (s.polled (readRound emptyEnv getRoot)).entries,
        AnsweredOnce s (readRound emptyEnv getRoot) e
          { (recvLoop e.2 getRoot).1 with headerLen := 18 } (ascii "GET / HTTP/1.0" ++ headerEnd)
          (readEntry (readRound emptyEnv getRoot) s.round e) := by
  obtain ⟨s, hs, ht⟩ := Run.arrives_iff.mp (show Run.arrives
    (fun s => decide (∃ e ∈ (s.polled (readRound emptyEnv getRoot)).entries,
      e.1.revents &&& pollIn ≠ 0 ∧ e.2.state = .reading ∧ (recvLoop e.2 getRoot).2 = true ∧
        (recvLoop e.2 getRoot).1.inBuf = some (ascii "GET / HTTP/1.0" ++ headerEnd) ∧
        strnstr (ascii "GET / HTTP/1.0" ++ headerEnd) headerEnd
          (recvLoop e.2 getRoot).1.inputLength = some 14 ∧
        streamFate emptyEnv (parsed emptyEnv { (recvLoop e.2 getRoot).1 with headerLen := 18 }
          (ascii "GET / HTTP/1.0" ++ headerEnd)).out.path ≠ .unexamined))
    (eventLoop startServer [.ready (acceptRound [7])]) = true by decide +kernel)
  obtain ⟨e, he, hin, hst, hleft, hbuf, hk, hfate⟩ := of_decide_eq_true ht
  have h := complete_request_answered_once setup_startServer hs (readRound emptyEnv getRoot) e he
    hin hst _ 14 hleft hbuf hk rfl
  exact ⟨s, hs, e, he, h.mpr fun _ => hfate⟩

/-- The target is opened and cannot be examined. -/
def unexaminedEnv : Env := { emptyEnv with fopen := fun _ _ => .ok [] }

/-- The stream is closed by `resolve_path` and by `do_read`. -/
theorem unexamined_file_ends_process :
    ∃ s, eventLoop startServer [.ready (acceptRound [7])] = .ok s ∧
      ∃ e ∈ (s.polled (readRound unexaminedEnv getRoot)).entries,
        let o := readEntry (readRound unexaminedEnv getRoot) s.round e
        let x : Handle := ⟨1, 7, .target, []⟩
        handles o.events = [.take x, .give x, .give x] ∧
        ∀ c buf, ¬ AnsweredOnce s (readRound unexaminedEnv getRoot) e c buf o := by
  obtain ⟨s, hs, ht⟩ := Run.arrives_iff.mp (show Run.arrives
    (fun s => decide (∃ e ∈ (s.polled (readRound unexaminedEnv getRoot)).entries,
      handles (readEntry (readRound unexaminedEnv getRoot) s.round e).events =
        [.take ⟨1, 7, .target, []⟩, .give ⟨1, 7, .target, []⟩, .give ⟨1, 7, .target, []⟩]))
    (eventLoop startServer [.ready (acceptRound [7])]) = true by decide +kernel)
  obtain ⟨e, he, hled⟩ := of_decide_eq_true ht
  refine ⟨s, hs, e, he, hled, fun c buf hans => ?_⟩
  have hlive := hans.survives
  rw [Survives, hled] at hlive
  exact absurd hlive (by decide +kernel)

end SimpleServer
