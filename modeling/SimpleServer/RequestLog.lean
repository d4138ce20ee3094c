import SimpleServer.StagedResponse

/-!
# The log of a run

`requestIn` is the request that a call of `do_read` finds complete in the
buffer. Its log entry is built by three calls of `log_append` in two functions,
and the bound that keeps them from truncating or from wrapping the room left
combines the request limit with the width of every field. Along a run the log
grows by one line for each request processed, in the order of the visits.
-/

namespace SimpleServer

open CString FileTree SlotArray

/-- The client with its `header_len` set, and the buffer that is parsed. -/
def requestIn (rs : List RecvResult) (c : Client) : Option (Client × Bytes) :=
  let drained := recvLoop c rs
  if drained.2 = false then none
  else match drained.1.inBuf with
    | none => none
    | some buf =>
      if drained.1.inputLength = 0 then none
      else match strnstr buf headerEnd drained.1.inputLength with
        | none => none
        | some k => some ({ drained.1 with headerLen := k + 4 }, buf)

section Requests

variable {rs : List RecvResult} {c₀ c : Client} {buf : Bytes}

theorem doRead_requestIn (env : Env) (round : ℕ) (rs : List RecvResult) (c : Client) (p : PollFd) :
    doRead env round rs c p = match requestIn rs c with
      | none => ⟨(recvLoop c rs).1, p, []⟩
      | some q => serve env round q.1 p q.2 := by
  simp only [doRead, requestIn]
  generalize recvLoop c rs = d
  cases hd : d.2 with
  | false => simp
  | true =>
    cases hb : d.1.inBuf with
    | none => simp
    | some buf =>
      by_cases hl : d.1.inputLength = 0
      · simp [hl]
      · cases hk : strnstr buf headerEnd d.1.inputLength with
        | none => simp [hl, hk]
        | some k => simp [hl, hk]

theorem requestIn_found (h : requestIn rs c₀ = some (c, buf)) :
    ∃ k, strnstr buf headerEnd (recvLoop c₀ rs).1.inputLength = some k ∧
      c = { (recvLoop c₀ rs).1 with headerLen := k + 4 } := by
  simp only [requestIn] at h
  split at h
  · cases h
  split at h
  · cases h
  split at h
  · cases h
  split at h
  · cases h
  · rename_i k hk
    cases h
    exact ⟨k, hk, rfl⟩

theorem requestIn_terminated (h : requestIn rs c₀ = some (c, buf)) :
    c.headerLen ≠ 0 ∧ strnstr buf headerEnd c.headerLen ≠ none := by
  obtain ⟨k, hk, rfl⟩ := requestIn_found h
  exact (found_terminated hk).2

theorem requestIn_headerLen (h : requestIn rs c₀ = some (c, buf))
    (hl : c₀.inputLength ≤ maxRequestSize) : c.headerLen ≤ maxRequestSize := by
  obtain ⟨k, hk, rfl⟩ := requestIn_found h
  exact (found_terminated hk).1.trans (recvLoop_length_le rs hl)

theorem requestIn_frame (h : requestIn rs c₀ = some (c, buf)) :
    c.clientAddr = c₀.clientAddr ∧ c.outBuf = c₀.outBuf := by
  obtain ⟨k, -, rfl⟩ := requestIn_found h
  have haddr := congrArg Client.clientAddr (recvLoop_frame c₀ rs).eq
  have hout := congrArg Client.outBuf (recvLoop_frame c₀ rs).eq
  exact ⟨haddr, hout⟩

end Requests

/-- After each of the three calls the entry holds the texts appended so far,
whole, and there is room behind them. -/
theorem log_entry_exact (env : Env) (round : ℕ) (rs : List RecvResult) (c₀ c : Client)
    (buf : Bytes) (hreq : requestIn rs c₀ = some (c, buf)) (hlog : env.flags.logging = true)
    (hlen : c.headerLen ≤ maxRequestSize) (haddr : c.clientAddr.length < inet6AddrStrLen)
    (resp : ClientResponse) (bodyLen : ℕ) :
    let addr := c.clientAddr ++ ascii " "
    let line := env.timeReceived.text ++ ascii " \"" ++ requestLine buf c.headerLen ++ ascii "\" "
    let result := respValToStatusString resp ++ ascii " " ++ decimalInt bodyLen ++ ascii "\n"
    (logAppend .zero addr).Holds addr ∧ (respond env round c buf).le.Holds (addr ++ line) ∧
      (logAppend (respond env round c buf).le result).Holds (addr ++ line ++ result) :=
  respond_entry (requestIn_terminated hreq) hlog haddr
    ((requestLine_length_le buf c.headerLen).trans hlen) resp bodyLen

theorem newYear_short : (ascii "2025-01-01T00:00:00Z").length < timeReceivedLength := by
  decide +kernel

theorem newYear_noNul : 0 ∉ ascii "2025-01-01T00:00:00Z" := by decide +kernel

def loggingEnv : Env :=
  { emptyEnv with
    flags := ⟨false, true, false, false, false⟩
    timeReceived := ⟨ascii "2025-01-01T00:00:00Z", newYear_short, newYear_noNul⟩ }

theorem log_entry_exact_root :
    let buf := ascii "GET / HTTP/1.0" ++ headerEnd
    let c := { initClient blankClient 7 with
      inBuf := some buf, inputLength := 18, inputCapacity := 1024, headerLen := 18 }
    requestIn getRoot (initClient blankClient 7) = some (c, buf) ∧
      (respond loggingEnv 0 c buf).le.Holds (ascii " " ++ (loggingEnv.timeReceived.text ++
        ascii " \"" ++ requestLine buf 18 ++ ascii "\" ")) := by
  intro buf c
  have hreq : requestIn getRoot (initClient blankClient 7) = some (c, buf) := by decide +kernel
  exact ⟨hreq, (log_entry_exact loggingEnv 0 getRoot _ c buf hreq rfl (by decide) (by decide)
    .resp404 0).2.1⟩

/-- A request found complete, with what the outside answers while it is served. -/
structure Processed where
  env : Env
  round : ℕ
  client : Client
  pollFd : PollFd
  buf : Bytes

def Processed.done (q : Processed) : Client :=
  (serve q.env q.round q.client q.pollFd q.buf).client

def Processed.logText (q : Processed) : Bytes :=
  SimpleServer.logText q.env q.client q.buf q.done

def processedBy (r : Round) (round : ℕ) (e : Entry) : Option Processed :=
  if e.1.revents &&& pollFailed = 0 ∧ e.1.revents &&& pollIn ≠ 0 ∧ e.2.state = .reading then
    (requestIn (r.recvs e.2.fd) e.2).map fun q => ⟨r.env e.2.fd, round, q.1, e.1, q.2⟩
  else none

/-- The requests processed along a run, in the order of the visits that the
trace records. -/
def processedRun : Server → List PollAnswer → List Processed
  | _, [] => []
  | s, a :: answers =>
    match s.step a with
    | .error _ => []
    | .ok s' =>
      (match a with
        | .ready r => (examined (s'.trace.drop s.trace.length)).filterMap (processedBy r s.round)
        | _ => []) ++ processedRun s' answers

section Visits

variable {r : Round} {round : ℕ} {e : Entry} {v : Visit}

theorem processedBy_idle (h0 : e.1.revents = 0) : processedBy r round e = none := by
  apply if_neg
  rw [h0]
  intro h
  exact h.2.1 (by decide)

theorem readEntry_logged (hq : Loggable e) (hl : (r.env e.2.fd).flags.logging = true)
    (hz : e.1.revents &&& pollFailed = 0) :
    (readEntry r round e).events.filterMap Event.logged =
      ((processedBy r round e).map Processed.logText).toList := by
  by_cases hin : e.1.revents &&& pollIn ≠ 0 ∧ e.2.state = .reading
  · rw [readEntry, if_pos hin, processedBy, if_pos ⟨hz, hin⟩, doRead_requestIn]
    cases hreq : requestIn (r.recvs e.2.fd) e.2 with
    | none => rfl
    | some q =>
      obtain ⟨⟨a, ha⟩, hlen⟩ := hq
      have haddr : ∃ a, q.1.clientAddr = addrText a := ⟨a, (requestIn_frame hreq).1.trans ha⟩
      simp only
      rw [serve_logged (requestIn_terminated hreq) haddr (requestIn_headerLen hreq hlen), if_pos hl]
      rfl
  · rw [readEntry, if_neg hin, processedBy, if_neg fun h => hin h.2]
    rfl

theorem writeEntry_logged {revents : PollMask} {c : Client} {w : WriteOutcome}
    (h : writeEntry r revents c = .ok w) : w.events.filterMap Event.logged = [] := by
  rw [List.filterMap_eq_nil_iff]
  simp only [writeEntry] at h
  split_ifs at h
  · intro ev hev
    rcases (doWrite_ok h).2.2.2 ev hev with ⟨bytes, rfl⟩ | rfl
    · rfl
    · rfl
  · cases h
    simp

theorem closeEvents_logged (c : Client) : (closeEvents c).filterMap Event.logged = [] := by
  rw [closeEvents]
  cases c.filePtr <;> rfl

theorem visitEntry_logged (hq : Loggable e) (hl : (r.env e.2.fd).flags.logging = true)
    (hv : visitEntry r round e = .ok v) :
    v.events.filterMap Event.logged = ((processedBy r round e).map Processed.logText).toList := by
  have hvisit : ∀ l, (Event.visit e.1 e.2 :: l).filterMap Event.logged =
      l.filterMap Event.logged := fun _ => rfl
  cases visitEntry_cases hv with
  | idle h0 =>
    rw [processedBy_idle h0]
    rfl
  | failed h0 h1 =>
    rw [hvisit, closeEvents_logged, processedBy, if_neg fun h => h1 h.1]
    rfl
  | closing w h0 hz hw hc =>
    rw [List.cons_append, hvisit, List.filterMap_append, List.filterMap_append,
      writeEntry_logged hw, closeEvents_logged, readEntry_logged hq hl hz, List.append_nil,
      List.append_nil]
  | kept w h0 hz hw hc =>
    rw [hvisit, List.filterMap_append, writeEntry_logged hw, readEntry_logged hq hl hz,
      List.append_nil]

end Visits

section Runs

variable {r : Round} {s s' : Server} {new order : List Entry} {answers : List PollAnswer}

theorem round_processed (he : RoundEffect r s new order s') :
    (examined (s'.trace.drop s.trace.length)).filterMap (processedBy r s.round) =
      order.filterMap (processedBy r s.round) := by
  rw [he.trace, List.drop_left, he.examined, List.filterMap_filter]
  apply List.filterMap_congr
  intro e _
  by_cases h0 : e.1.revents = 0
  · rw [processedBy_idle h0]
    split <;> rfl
  · exact if_pos (by simpa using h0)

theorem processedRun_ready (he : RoundEffect r s new order s')
    (h : s.step (.ready r) = .ok { s' with round := s.round + 1 }) :
    processedRun s (.ready r :: answers) = order.filterMap (processedBy r s.round) ++
      processedRun { s' with round := s.round + 1 } answers := by
  simp only [processedRun, h]
  rw [← round_processed he]

theorem round_loggable (he : RoundEffect r s new order s') (hs : Entrywise Loggable s) :
    ∀ e ∈ order, Loggable e := by
  refine he.forall_order hs.all (fun a e hf => ?_) fun _ _ hq => hq
  obtain ⟨old, rfl⟩ := hf
  exact ⟨⟨a.addr, rfl⟩, Nat.zero_le _⟩

theorem round_logged (he : RoundEffect r s new order s') (hs : Entrywise Loggable s)
    (hl : ∀ fd, (r.env fd).flags.logging = true) :
    s'.trace.filterMap Event.logged = s.trace.filterMap Event.logged ++
      (order.filterMap (processedBy r s.round)).map Processed.logText := by
  have hline : ∀ e ∈ order, (eventsOf r s.round e).filterMap Event.logged =
      ((processedBy r s.round e).map Processed.logText).toList := by
    intro e ho
    obtain ⟨v, hv⟩ := he.visited e ho
    rw [(keptBy_ok hv).2]
    exact visitEntry_logged (round_loggable he hs e ho) (hl e.2.fd) hv
  have hmap : (order.filterMap (processedBy r s.round)).map Processed.logText =
      order.flatMap fun e => ((processedBy r s.round e).map Processed.logText).toList := by
    rw [List.map_filterMap, List.filterMap_eq_flatMap_toList]
  rw [he.trace, List.filterMap_append, List.filterMap_flatMap, List.flatMap_congr hline, hmap]

theorem eventLoop_logged (hs : Entrywise Loggable s)
    (hl : ∀ r, .ready r ∈ answers → ∀ fd, (r.env fd).flags.logging = true)
    (h : eventLoop s answers = .ok s') :
    s'.trace.filterMap Event.logged = s.trace.filterMap Event.logged ++
      (processedRun s answers).map Processed.logText := by
  induction answers generalizing s with
  | nil =>
    cases h
    rw [processedRun, List.map_nil, List.append_nil]
  | cons a answers ih =>
    obtain ⟨s₁, h1, h2⟩ := Run.run_cons_ok h
    have hrest := ih (step_loggable hs h1) (fun r hr => hl r (List.mem_cons_of_mem _ hr)) h2
    cases a with
    | eintr =>
      cases h1
      exact hrest
    | fatal => cases h1
    | ready r =>
      obtain ⟨t, new, order, rfl, he⟩ := pollRound_ok hs.pos hs.least h1
      rw [hrest, processedRun_ready he h1, List.map_append, ← List.append_assoc,
        ← round_logged he hs (hl r List.mem_cons_self)]

end Runs

end SimpleServer
