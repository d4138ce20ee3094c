import SimpleServer.Transmission
import SimpleServer.LogDecoding
import SimpleServer.BuildLedger
import SimpleServer.Holdings
import SimpleServer.Lib.Sessions

/-!
# Whole responses, and none lost

Cut at the calls of `close_conn`, the trace of a run falls into conversations:
what the peer of one connection has been sent until its descriptor was closed.
A run of the event loop that goes on has sent each of them nothing or all of
its response. And the requests that have been processed are, as often as they
have been, the connections that have ended with a response and those that
still wait for theirs to be sent.
-/

namespace SimpleServer

open CString FileTree SlotArray Sessions

/-- A connection that has ended: the record that `close_conn` released, and
what its peer had been sent by then. -/
structure Ending where
  client : Client
  sent : Bytes
  shut : Bool
  deriving DecidableEq, Repr

def Event.ends : Event → Bool
  | .close _ => true
  | _ => false

def Event.bytes : Event → Bytes
  | .sent _ bytes => bytes
  | _ => []

def Event.shuts : Event → Bool
  | .shutdown _ => true
  | _ => false

def endingOf (ev : List Event) : Option Ending :=
  match ev.getLast? with
  | some (.close c) => some ⟨c, ev.flatMap Event.bytes, ev.any Event.shuts⟩
  | _ => none

/-- The connections that have ended, in the order in which they were closed. -/
def endings (trace : List Event) : List Ending :=
  (ended Event.link Event.ends trace).filterMap endingOf

/-- A response has been decided on; a request that is too long is only given
its code. -/
def Client.answered (c : Client) : Bool :=
  decide (c.respVal ≠ .numClientResp) && decide (c.state ≠ .processing)

/-- The record as it was when its response had just been staged. -/
def Client.asStaged (c : Client) : Client := { c with outputSent := 0, state := .sendingHeader }

/-- The peer has been sent nothing, or the response from the first byte to the
last and then the end of the stream. -/
inductive Ending.Whole (x : Ending) : Prop
  | nothing : x.sent = [] → x.shut = false → x.Whole
  | all : x.client.answered = true → x.client.outBuf = some x.sent → x.shut = true → x.Whole

def Client.Covered (c : Client) : Prop := ∀ out, c.outBuf = some out → out.length ≤ c.outputLength

/-- What the record of a client between two calls of its handlers says about
its response. -/
structure Staging (c : Client) : Prop where
  unsent : c.outputSent = 0
  state : c.state ≠ .sendingBody
  undecided : c.state = .reading ∨ c.state = .closing → c.respVal = .numClientResp
  decided : c.state = .sendingHeader → c.respVal ≠ .numClientResp
  unstaged : c.state ≠ .sendingHeader → c.outBuf = none
  covered : c.Covered

theorem Staging.answered_iff_sending {c : Client} (h : Staging c) :
    c.answered = true ↔ c.state = .sendingHeader := by
  rw [Client.answered, Bool.and_eq_true, decide_eq_true_eq, decide_eq_true_eq]
  constructor
  · intro ha
    cases hs : c.state with
    | reading => exact absurd (h.undecided (Or.inl hs)) ha.1
    | processing => exact absurd hs ha.2
    | sendingHeader => rfl
    | sendingBody => exact absurd hs h.state
    | closing => exact absurd (h.undecided (Or.inr hs)) ha.1
  · intro hs
    refine ⟨h.decided hs, ?_⟩
    rw [hs]
    decide

section Builders

variable {env : Env} {round : ℕ} {c : Client} {rp : ResolvedPath} {req : Request} {buf : Bytes}

theorem covered_none (h : c.outBuf = none) : c.Covered := by
  intro out ho
  rw [h] at ho
  cases ho

theorem covered_some {out : Bytes} (h : c.outBuf = some out) (hl : out.length ≤ c.outputLength) :
    c.Covered := by
  intro out' ho
  rw [h] at ho
  cases ho
  exact hl

theorem buildErrorResponse_covered (hc : c.outBuf = none) :
    (buildErrorResponse env round c req).client.Covered := by
  rcases (buildErrorResponse_unstaged hc : (buildErrorResponse env round c req).ret = 0 ∨ _)
    with hr | hn
  · obtain ⟨hs, -⟩ := buildErrorResponse_stages hr
    refine covered_some hs.outBuf ?_
    rw [hs.outputLength, List.length_append]
  · exact covered_none hn

theorem buildResponseCgi_covered (hc : c.outBuf = none) :
    (buildResponseCgi env round c rp req).client.Covered := by
  simp only [buildResponseCgi]
  repeat' split
  all_goals first
    | exact covered_none hc
    | exact covered_none rfl
    | skip
  refine covered_some rfl ?_
  -- the header is cut to its buffer, its full length is what is counted
  rw [List.length_append]
  exact Nat.add_le_add_right (List.length_take_le' _ _) _

theorem buildResponseDir_covered (hc : c.outBuf = none) :
    (buildResponseDir env round c rp req).client.Covered := by
  simp only [buildResponseDir]
  repeat' split
  all_goals first
    | exact covered_none hc
    | exact covered_some rfl le_rfl

theorem buildResponseFile_covered (hc : c.outBuf = none) :
    (buildResponseFile env round c rp req).client.Covered := by
  simp only [buildResponseFile]
  repeat' split
  all_goals first
    | exact covered_none hc
    | exact covered_some rfl le_rfl

theorem buildByType_covered (hc : c.outBuf = none) :
    (buildByType env round c rp req).client.Covered := by
  rw [buildByType]
  split
  · exact buildResponseCgi_covered hc
  · exact buildResponseDir_covered hc
  · exact buildResponseFile_covered hc
  · exact covered_none hc

theorem buildOkayResponse_covered (hc : c.outBuf = none) :
    (buildOkayResponse env round c rp req).client.Covered := by
  have hnone : ({ c with respVal := .resp200 } : Client).outBuf = none := hc
  simp only [buildOkayResponse]
  split
  · rename_i hneg
    refine buildErrorResponse_covered ?_
    refine (buildByType_unstaged hnone).resolve_left fun h0 => ?_
    rw [h0] at hneg
    cases hneg
  · exact buildByType_covered hnone

theorem respond_covered (hc : c.outBuf = none) : (respond env round c buf).client.Covered := by
  have hf : ResolveFrame _ (resolved env round c buf).client := resolvePath_frame env round _ _ _
  have hnone : (resolved env round c buf).client.outBuf = none := by
    rw [hf.eq]
    exact hc
  by_cases hp : (parsed env c buf).ret = 0
  · by_cases hr : (resolved env round c buf).ret = 0
    · rw [respond_found hp hr]
      exact buildOkayResponse_covered hnone
    · rw [respond_unresolved hp hr]
      exact buildErrorResponse_covered hnone
  · rw [respond_refused hp]
    exact buildErrorResponse_covered hc

theorem buildOkayResponse_decided (hp : rp.pathType ≠ .unknown) :
    (buildOkayResponse env round c rp req).client.respVal ≠ .numClientResp := by
  have hv : BuildVerdict (buildByType env round { c with respVal := .resp200 } rp req) :=
    buildByType_verdict rfl hp
  simp only [buildOkayResponse]
  split
  · rename_i hneg
    change (buildErrorResponse env round _ req).client.respVal ≠ _
    rw [buildErrorResponse_respVal]
    exact isError_code (resetForError_isError hv hneg)
  · rename_i hpos
    exact (hv.staged hpos).code

theorem respond_decided : (respond env round c buf).client.respVal ≠ .numClientResp := by
  have hv : ResolveVerdict _ (resolved env round c buf) := resolvePath_verdict env round _ _ _
  by_cases hp : (parsed env c buf).ret = 0
  · by_cases hr : (resolved env round c buf).ret = 0
    · rw [respond_found hp hr]
      exact buildOkayResponse_decided (hv.decided hr)
    · rw [respond_unresolved hp hr]
      change (buildErrorResponse env round _ _).client.respVal ≠ _
      rw [buildErrorResponse_respVal]
      exact isError_code (hv.failed hr)
  · rw [respond_refused hp]
    change (buildErrorResponse env round _ _).client.respVal ≠ _
    rw [buildErrorResponse_respVal]
    exact isError_code (parseRequest_error hp)

end Builders

section Reading

variable {c : Client}

theorem recvLoop_undecided (rs : List RecvResult) (hst : c.state = .reading)
    (hr : c.respVal = .numClientResp) :
    ((recvLoop c rs).1.state = .reading ∨ (recvLoop c rs).1.state = .closing) ∧
        (recvLoop c rs).1.respVal = .numClientResp ∨
      (recvLoop c rs).1.state = .processing ∧ (recvLoop c rs).2 = false := by
  induction rs generalizing c with
  | nil => exact Or.inl ⟨Or.inl hst, hr⟩
  | cons a rs ih =>
    cases a with
    | data chunk realloc =>
      simp only [recvLoop]
      by_cases h : maxRequestSize < c.inputLength + chunk.bytes.length
      · rw [append_over h, if_pos (by simp)]
        exact Or.inr ⟨rfl, rfl⟩
      by_cases hg : c.inputCapacity < c.inputLength + chunk.bytes.length ∧ realloc = false
      · rw [append_failed h hg, if_pos (by simp)]
        exact Or.inl ⟨Or.inr rfl, hr⟩
      obtain ⟨cap, hs⟩ := append_stored h hg
      rw [hs, if_neg (by simpa [store] using hst)]
      exact ih hst hr
    | eof => exact Or.inl ⟨Or.inr rfl, hr⟩
    | fail e =>
      simp only [recvLoop]
      split_ifs
      · exact Or.inl ⟨Or.inl hst, hr⟩
      · exact ih hst hr
      · exact Or.inl ⟨Or.inr rfl, hr⟩

theorem recvLoop_staging (rs : List RecvResult) (h : Staging c) (hst : c.state = .reading) :
    Staging (recvLoop c rs).1 ∧ (recvLoop c rs).1.state ≠ .sendingHeader := by
  have hf := (recvLoop_frame c rs).eq
  have hsent := (congrArg Client.outputSent hf).trans h.unsent
  have hout := (congrArg Client.outBuf hf).trans (h.unstaged (by rw [hst]; decide))
  rcases recvLoop_undecided rs hst (h.undecided (Or.inl hst)) with ⟨hs, hr⟩ | ⟨hs, -⟩
  · have hne : (recvLoop c rs).1.state ≠ .sendingHeader := by
      rcases hs with hs | hs <;> rw [hs] <;> decide
    refine ⟨⟨hsent, ?_, fun _ => hr, fun h => absurd h hne, fun _ => hout, covered_none hout⟩, hne⟩
    rcases hs with hs | hs <;> rw [hs] <;> decide
  · have hne : (recvLoop c rs).1.state ≠ .sendingHeader := by
      rw [hs]
      decide
    refine ⟨⟨hsent, ?_, ?_, fun h => absurd h hne, fun _ => hout, covered_none hout⟩, hne⟩
    · rw [hs]
      decide
    · rw [hs]
      intro h
      rcases h with h | h <;> cases h

theorem serve_staging {env : Env} {round : ℕ} {p : PollFd} {buf : Bytes} (h0 : c.outputSent = 0)
    (hc : c.outBuf = none) : Staging (serve env round c p buf).client := by
  refine ⟨?_, (by simp [serve]), ?_, fun _ => respond_decided, fun h => absurd rfl h,
    respond_covered hc⟩
  · change (respond env round c buf).client.outputSent = 0
    rw [respond_frame.eq]
    exact h0
  · intro h
    rcases h with h | h <;> cases h

end Reading

section Visits

variable {r : Round} {round : ℕ} {e : Entry} {v : Visit}

/-- What the read handler does to a client, and the request it processes. -/
inductive ReadStaging (r : Round) (round : ℕ) (e : Entry) : Option Processed → Prop
  | untouched : (readEntry r round e).client = e.2 → ReadStaging r round e none
  | waiting : e.2.state = .reading → Staging (readEntry r round e).client →
      (readEntry r round e).client.state ≠ .sendingHeader → ReadStaging r round e none
  | staged (q : Processed) : e.2.state = .reading → (readEntry r round e).client = q.done →
      Staging q.done → ReadStaging r round e (some q)

theorem readEntry_staging (r : Round) (round : ℕ) (h : Staging e.2)
    (hz : e.1.revents &&& pollFailed = 0) :
    ReadStaging r round e (processedBy r round e) := by
  by_cases hin : e.1.revents &&& pollIn ≠ 0 ∧ e.2.state = .reading
  · obtain ⟨hs, hne⟩ := recvLoop_staging (r.recvs e.2.fd) h hin.2
    have hread : readEntry r round e =
        doRead (r.env e.2.fd) round (r.recvs e.2.fd) e.2 e.1 := if_pos hin
    rw [processedBy, if_pos ⟨hz, hin⟩]
    rw [doRead_requestIn] at hread
    cases hreq : requestIn (r.recvs e.2.fd) e.2 with
    | none =>
      rw [hreq] at hread
      refine .waiting hin.2 ?_ ?_ <;> rw [hread]
      · exact hs
      · exact hne
    | some q =>
      rw [hreq] at hread
      have hfound : requestIn (r.recvs e.2.fd) e.2 = some (q.1, q.2) := hreq
      obtain ⟨k, -, hq⟩ := requestIn_found hfound
      refine .staged _ hin.2 (by rw [hread]; rfl) (serve_staging ?_ ?_)
      · change q.1.outputSent = 0
        rw [hq]
        exact hs.unsent
      · change q.1.outBuf = none
        rw [hq]
        exact hs.unstaged hne
  · rw [processedBy, if_neg fun h => hin h.2]
    refine .untouched ?_
    rw [readEntry, if_neg hin]

/-- What the write handler does to a client in state `SENDING_HEADER`. -/
inductive WriteStaging (c : Client) : WriteOutcome → Prop
  | untouched : WriteStaging c ⟨c, []⟩
  | empty : c.state = .sendingHeader → WriteStaging c ⟨{ c with state := .closing }, []⟩
  | delivered (w : WriteOutcome) (out : Bytes) : c.state = .sendingHeader → c.outBuf = some out →
      (∃ sent, w.client = { c with outputSent := sent, state := .closing }) →
      w.events.flatMap Event.bytes = out → w.events.any Event.shuts = true → WriteStaging c w

theorem writeEntry_staging {c : Client} {revents : PollMask} {w : WriteOutcome} (h : Staging c)
    (hw : writeEntry r revents c = .ok w) : WriteStaging c w := by
  simp only [writeEntry] at hw
  split_ifs at hw with hin
  · have hst : c.state = .sendingHeader := hin.2.resolve_right h.state
    by_cases hb : c.outBuf = none ∨ c.outputLength = 0
    · rw [doWrite, if_pos hb] at hw
      cases hw
      exact .empty hst
    · rw [doWrite, if_neg hb] at hw
      obtain ⟨hcl, pieces, hfl, hev⟩ := sendLoop_ok hw
      obtain ⟨out, ho⟩ := Option.ne_none_iff_exists'.mp fun hn => hb (Or.inl hn)
      refine .delivered w out hst ho ⟨_, hcl⟩ ?_ ?_
      · have hall : unsent c = out := by
          rw [unsent, h.unsent, ho]
          exact List.take_of_length_le (h.covered out ho)
        rw [hev, List.flatMap_append, List.flatMap_map, ← hall, ← hfl, List.flatMap_singleton,
          ← List.flatMap_id]
        exact List.append_nil _
      · rw [hev, List.any_append]
        exact Bool.or_true _
  · cases hw
    exact .untouched

end Visits

section Endings

variable {xs ys : List Event} {c : Client}

theorem endings_append (h : Complete Event.link Event.ends xs) :
    endings (xs ++ ys) = endings xs ++ endings ys := by
  rw [endings, ended_append h, List.filterMap_append]
  rfl

theorem endings_outside (h : ∀ x ∈ xs, x.link = none) :
    Complete Event.link Event.ends xs ∧ endings xs = [] := by
  obtain ⟨hc, he⟩ : Complete Event.link Event.ends xs ∧ _ := ended_outside h
  rw [endings, he]
  exact ⟨hc, rfl⟩

theorem endings_close (hx : ∀ x ∈ xs, x.link = none)
    (hy : ∀ y ∈ ys, y.link = some c.fd ∧ y.ends = false) :
    Complete Event.link Event.ends (xs ++ ys ++ closeEvents c) ∧
      endings (xs ++ ys ++ closeEvents c) = [⟨c, ys.flatMap Event.bytes, ys.any Event.shuts⟩] := by
  have hmid : ∀ x ∈ xs ++ ys, x.link = none ∨ x.link = some c.fd ∧ x.ends = false := by
    intro x hm
    rcases List.mem_append.mp hm with hm | hm
    · exact Or.inl (hx x hm)
    · exact Or.inr (hy x hm)
  have hfile : ∀ x ∈ (closeEvents c).tail, x.link = none := by
    rw [closeEvents]
    cases c.filePtr <;> simp [Event.link]
  have hsplit : xs ++ ys ++ closeEvents c = (xs ++ ys ++ [.close c]) ++ (closeEvents c).tail := by
    rw [List.append_assoc (xs ++ ys)]
    rfl
  have hown : (xs ++ ys).filter (fun x => x.link = some c.fd) = ys := by
    rw [List.filter_append, List.filter_eq_nil_iff.mpr, List.nil_append, List.filter_eq_self]
    · intro y hm
      simp [(hy y hm).1]
    · intro x hm
      simp [hx x hm]
  obtain ⟨h1, h2⟩ := ended_session (k := c.fd) (x := .close c) hmid rfl rfl
  obtain ⟨h3, h4⟩ := endings_outside hfile
  rw [hsplit, endings_append h1, h4, List.append_nil, endings, h2, hown]
  refine ⟨h1.append h3, ?_⟩
  simp [endingOf, Event.bytes, Event.shuts]

end Endings

def endedResponses (trace : List Event) : List Client :=
  (((endings trace).map Ending.client).filter Client.answered).map Client.asStaged

/-- The response that an entry waits to send, if it has one. -/
def pendingResponse (e : Entry) : List Client := [e.2].filter Client.answered

/-- The books of one visit: what was pending or is processed is ended or pending. -/
structure VisitAccount (r : Round) (round : ℕ) (e : Entry) (v : Visit) : Prop where
  whole : ∀ x ∈ endings v.events, x.Whole
  kept : ∀ e', v.kept = some e' → Staging e'.2 ∧ e'.2.state ≠ .closing
  balance : (pendingResponse e ++ (processedBy r round e).toList.map Processed.done).Perm
    (endedResponses v.events ++ v.kept.toList.flatMap pendingResponse)

section Accounts

variable {r : Round} {round : ℕ} {e : Entry} {v : Visit}

theorem pendingResponse_of_sending {c : Client} {p : PollFd} (h : Staging c)
    (hs : c.state = .sendingHeader) : pendingResponse (p, c) = [c] :=
  List.filter_cons_of_pos (h.answered_iff_sending.mpr hs)

theorem pendingResponse_of_not_sending {c : Client} {p : PollFd} (h : Staging c)
    (hs : c.state ≠ .sendingHeader) : pendingResponse (p, c) = [] :=
  List.filter_cons_of_neg fun ha => hs (h.answered_iff_sending.mp ha)

theorem ended_pending {c : Client} {p : PollFd} (h : Staging c) :
    ([c].filter Client.answered).map Client.asStaged = pendingResponse (p, c) := by
  by_cases hs : c.state = .sendingHeader
  · have hsame : c.asStaged = c := by
      rw [Client.asStaged, ← hs, ← h.unsent]
    have hp : [c].filter Client.answered = [c] := pendingResponse_of_sending (p := p) h hs
    rw [pendingResponse_of_sending h hs, hp, List.map_singleton, hsame]
  · have hp : [c].filter Client.answered = [] := pendingResponse_of_not_sending (p := p) h hs
    rw [pendingResponse_of_not_sending h hs, hp, List.map_nil]

theorem ended_written {c : Client} (sent : ℕ) (h : Staging c) (hs : c.state = .sendingHeader) :
    let c' := { c with outputSent := sent, state := .closing }
    c'.answered = true ∧ ([c'].filter Client.answered).map Client.asStaged = [c] := by
  intro c'
  have ha : c'.answered = true := by
    rw [Client.answered, Bool.and_eq_true, decide_eq_true_eq, decide_eq_true_eq]
    exact ⟨h.decided hs, by simp [c']⟩
  have hsame : c'.asStaged = c := by
    change { c with outputSent := 0, state := .sendingHeader } = c
    rw [← hs, ← h.unsent]
  rw [List.filter_cons_of_pos ha, List.filter_nil, List.map_singleton, hsame]
  exact ⟨ha, rfl⟩

theorem ending_written {c : Client} {w : WriteOutcome} (p : PollFd) (h : Staging c)
    (hw : WriteStaging c w) :
    let x : Ending := ⟨w.client, w.events.flatMap Event.bytes, w.events.any Event.shuts⟩
    x.Whole ∧ ([x.client].filter Client.answered).map Client.asStaged = pendingResponse (p, c) := by
  intro x
  cases hw with
  | untouched => exact ⟨.nothing rfl rfl, ended_pending h⟩
  | empty hst =>
    obtain ⟨-, he⟩ := ended_written c.outputSent h hst
    rw [pendingResponse_of_sending h hst]
    exact ⟨.nothing rfl rfl, he⟩
  | delivered w out hst ho hcl hbytes hshut =>
    obtain ⟨sent, hcl⟩ := hcl
    obtain ⟨ha, he⟩ := ended_written sent h hst
    have hx : x.client = { c with outputSent := sent, state := .closing } := hcl
    rw [pendingResponse_of_sending h hst, hx]
    refine ⟨.all (by rw [hx]; exact ha) ?_ hshut, he⟩
    rw [hx]
    exact ho.trans (congrArg some hbytes.symm)

theorem endedResponses_of {xs : List Event} {x : Ending} (h : endings xs = [x]) :
    endedResponses xs = ([x.client].filter Client.answered).map Client.asStaged := by
  rw [endedResponses, h]
  rfl

theorem readEntry_pending (r : Round) (round : ℕ) (h : Staging e.2)
    (hz : e.1.revents &&& pollFailed = 0) (p : PollFd) :
    Staging (readEntry r round e).client ∧
      pendingResponse e ++ (processedBy r round e).toList.map Processed.done =
        pendingResponse (p, (readEntry r round e).client) := by
  cases hq : processedBy r round e with
  | none =>
    have hr := readEntry_staging r round h hz
    rw [hq] at hr
    cases hr with
    | untouched heq =>
      rw [heq]
      exact ⟨h, List.append_nil _⟩
    | waiting hst hs hne =>
      rw [pendingResponse_of_not_sending hs hne]
      refine ⟨hs, ?_⟩
      rw [pendingResponse_of_not_sending (p := e.1) h (by rw [hst]; decide)]
      rfl
  | some q =>
    have hr := readEntry_staging r round h hz
    rw [hq] at hr
    cases hr with
    | staged _ hst heq hs =>
      rw [heq, pendingResponse_of_sending hs rfl]
      refine ⟨hs, ?_⟩
      rw [pendingResponse_of_not_sending (p := e.1) h (by rw [hst]; decide)]
      rfl

/-- How the trace of a visit falls into conversations: the entry is kept and
none has ended, or its own has. -/
inductive VisitEnds (r : Round) (round : ℕ) (e : Entry) (v : Visit) : Prop
  | idle : e.1.revents = 0 → v.kept = some e → endings v.events = [] → VisitEnds r round e v
  | failed : e.1.revents &&& pollFailed ≠ 0 → v.kept = none →
      endings v.events = [⟨e.2, [], false⟩] → VisitEnds r round e v
  | closing (w : WriteOutcome) : e.1.revents &&& pollFailed = 0 →
      writeEntry r e.1.revents (readEntry r round e).client = .ok w → w.client.state = .closing →
      v.kept = none →
      endings v.events = [⟨w.client, w.events.flatMap Event.bytes, w.events.any Event.shuts⟩] →
      VisitEnds r round e v
  | kept : e.1.revents &&& pollFailed = 0 → (readEntry r round e).client.state ≠ .closing →
      v.kept = some ((readEntry r round e).pollFd, (readEntry r round e).client) →
      endings v.events = [] → VisitEnds r round e v

theorem visitEntry_ends (hv : visitEntry r round e = .ok v) :
    Complete Event.link Event.ends v.events ∧ VisitEnds r round e v := by
  have hread : ∀ x ∈ Event.visit e.1 e.2 :: (readEntry r round e).events, x.link = none := by
    intro x hx
    rcases List.mem_cons.mp hx with rfl | hx
    · rfl
    · exact readEntry_links x hx
  cases visitEntry_cases hv with
  | idle h0 => exact ⟨complete_nil, .idle h0 rfl (by simp [endings, ended, endedFrom])⟩
  | failed h0 h1 =>
    have hvis : ∀ x ∈ [Event.visit e.1 e.2], x.link = none := by simp [Event.link]
    have hnone : ∀ y ∈ ([] : List Event), y.link = some e.2.fd ∧ y.ends = false := by simp
    obtain ⟨hc, he⟩ := endings_close hvis hnone
    rw [List.append_nil, List.singleton_append] at hc he
    exact ⟨hc, .failed h1 rfl he⟩
  | closing w h0 hz hw hc =>
    have hfd := writeEntry_fd hw
    have hmid : ∀ y ∈ w.events, y.link = some w.client.fd ∧ y.ends = false := by
      intro y hy
      have hl := (writeEntry_moment hw).events y hy
      refine ⟨hl.trans (congrArg some hfd.symm), ?_⟩
      have ho := writeEntry_ofLoop hw y hy
      cases y <;> first | rfl | cases ho
    obtain ⟨hcomp, he⟩ := endings_close hread hmid
    exact ⟨hcomp, .closing w hz hw hc rfl he⟩
  | kept w h0 hz hw hc =>
    have hnil := (writeEntry_cases hw).resolve_right hc
    subst hnil
    obtain ⟨hcomp, he⟩ := endings_outside hread
    rw [List.append_nil]
    exact ⟨hcomp, .kept hz hc rfl he⟩

theorem visitEntry_account (h : Staging e.2) (hne : e.2.state ≠ .closing)
    (hv : visitEntry r round e = .ok v) : VisitAccount r round e v := by
  cases (visitEntry_ends hv).2 with
  | idle h0 hk he =>
    refine ⟨by simp [he], ?_, ?_⟩
    · intro e' he'
      cases hk.symm.trans he'
      exact ⟨h, hne⟩
    · rw [processedBy_idle h0, hk]
      simp [endedResponses, he]
  | failed h1 hk he =>
    refine ⟨?_, by simp [hk], ?_⟩
    · rw [he]
      intro x hx
      rw [List.mem_singleton.mp hx]
      exact .nothing rfl rfl
    · rw [processedBy, if_neg fun hz => h1 hz.1, endedResponses_of he, ended_pending (p := e.1) h,
        hk]
      simp
  | closing w hz hw hc hk he =>
    obtain ⟨hs, hpend⟩ := readEntry_pending r round h hz e.1
    obtain ⟨hwhole, hended⟩ := ending_written e.1 hs (writeEntry_staging hs hw)
    refine ⟨?_, by simp [hk], ?_⟩
    · rw [he]
      intro x hx
      rw [List.mem_singleton.mp hx]
      exact hwhole
    · rw [hpend, ← (endedResponses_of he).trans hended, hk]
      simp
  | kept hz hc hk he =>
    obtain ⟨hs, hpend⟩ := readEntry_pending r round h hz
      (readEntry r round e).pollFd
    refine ⟨by simp [he], ?_, ?_⟩
    · intro e' he'
      cases hk.symm.trans he'
      exact ⟨hs, hc⟩
    · rw [hpend, hk]
      simp [endedResponses, he]

end Accounts

theorem initClient_staging (old : Client) (fd : ℕ) (addr : Bytes) :
    Staging { initClient old fd with clientAddr := addr } ∧
      { initClient old fd with clientAddr := addr }.state ≠ .closing := by
  refine ⟨⟨rfl, ?_, fun _ => rfl, ?_, fun _ => rfl, covered_none rfl⟩, ?_⟩
  · simp [initClient]
  · simp [initClient]
  · simp [initClient]

theorem fresh_staging (a : Accepted) (e : Entry) (hf : IsFresh a e) :
    Staging e.2 ∧ e.2.state ≠ .closing := by
  obtain ⟨old, rfl⟩ := hf
  exact initClient_staging old a.fd _

section Rounds

variable {r : Round} {s s' : Server} {new order : List Entry}

/-- No client is in the middle of its response, and every conversation that has
ended was whole. -/
structure Books (s : Server) : Prop where
  clients : Entrywise (fun e => Staging e.2 ∧ e.2.state ≠ .closing) s
  complete : Complete Event.link Event.ends s.trace
  whole : ∀ x ∈ endings s.trace, x.Whole

theorem round_staging (he : RoundEffect r s new order s') (hb : Books s) :
    ∀ e ∈ order, Staging e.2 ∧ e.2.state ≠ .closing :=
  he.forall_order hb.clients.all fresh_staging fun _ _ hq => hq

theorem round_accounts (he : RoundEffect r s new order s') (hb : Books s) :
    ∀ e ∈ order, VisitAccount r s.round e ⟨keptBy r s.round e, eventsOf r s.round e⟩ := by
  intro e ho
  obtain ⟨v, hv⟩ := he.visited e ho
  obtain ⟨hst, hne⟩ := round_staging he hb e ho
  rw [(keptBy_ok hv).1, (keptBy_ok hv).2]
  exact visitEntry_account hst hne hv

theorem round_endings (he : RoundEffect r s new order s')
    (hc : Complete Event.link Event.ends s.trace) :
    Complete Event.link Event.ends s'.trace ∧
      endings s'.trace = endings s.trace ++
        order.flatMap fun e => endings (eventsOf r s.round e) := by
  have heach : ∀ e ∈ order, Complete Event.link Event.ends (eventsOf r s.round e) := by
    intro e ho
    obtain ⟨v, hv⟩ := he.visited e ho
    rw [(keptBy_ok hv).2]
    exact (visitEntry_ends hv).1
  obtain ⟨hcomp, hend⟩ := ended_flatMap (eventsOf r s.round) heach
  rw [he.trace, endings_append hc]
  refine ⟨hc.append hcomp, congrArg _ ?_⟩
  rw [endings, hend, List.filterMap_flatMap]
  rfl

theorem round_books (he : RoundEffect r s new order s') (hb : Books s) : Books s' := by
  obtain ⟨hcomp, hend⟩ := round_endings he hb.complete
  refine ⟨?_, hcomp, ?_⟩
  · refine he.entrywise hb.clients (fun a _ e hf => ?_) (fun _ _ hq => ⟨⟨hq.1.unsent, hq.1.state,
      hq.1.undecided, hq.1.decided, hq.1.unstaged, hq.1.covered⟩, hq.2⟩) ?_
    · obtain ⟨old, rfl⟩ := hf
      exact initClient_staging _ _ _
    · intro e _ v e' hq hv hk
      exact (visitEntry_account hq.1 hq.2 hv).kept e' hk
  · rw [hend]
    intro x hx
    rcases List.mem_append.mp hx with hx | hx
    · exact hb.whole x hx
    · obtain ⟨e, ho, hx⟩ := List.mem_flatMap.mp hx
      exact (round_accounts he hb e ho).whole x hx

theorem fresh_pending {as : List Accepted} (h : List.Forall₂ IsFresh as new) :
    new.flatMap pendingResponse = [] := by
  refine List.flatMap_eq_nil_iff.mpr (fresh_all (fun a _ e hf => ?_) h)
  obtain ⟨old, rfl⟩ := hf
  exact pendingResponse_of_not_sending (initClient_staging _ _ _).1 (by simp [initClient])

theorem round_balance (he : RoundEffect r s new order s') (hb : Books s) :
    (endedResponses s.trace ++ s.entries.flatMap pendingResponse ++
        (order.filterMap (processedBy r s.round)).map Processed.done).Perm
      (endedResponses s'.trace ++ s'.entries.flatMap pendingResponse) := by
  have hbal := he.balance pendingResponse
    (fun e => (processedBy r s.round e).toList.map Processed.done)
    (fun e => endedResponses (eventsOf r s.round e)) (fun _ _ => rfl)
    fun e ho => (round_accounts he hb e ho).balance
  have hended : endedResponses s'.trace = endedResponses s.trace ++
      order.flatMap fun e => endedResponses (eventsOf r s.round e) := by
    simp only [endedResponses, (round_endings he hb.complete).2, List.map_append,
      List.filter_append, List.map_flatMap, List.filter_flatMap]
  rw [fresh_pending he.fresh, List.append_nil] at hbal
  rw [hended, List.append_assoc, List.append_assoc, List.map_filterMap,
    List.filterMap_eq_flatMap_toList]
  refine List.Perm.append_left _ ?_
  simpa only [Option.toList_map] using hbal

end Rounds

section Runs

variable {s s' : Server} {answers : List PollAnswer}

theorem Books.tick (hb : Books s) (n : ℕ) : Books { s with round := n } :=
  ⟨⟨hb.clients.pos, hb.clients.least, hb.clients.all⟩, hb.complete, hb.whole⟩

theorem setup_books {pfds : ℕ → PollFd} {clients : ℕ → Client} {v4 v6 : Option ℕ}
    (h : setup pfds clients v4 v6 = .ok s) : Books s := by
  refine ⟨setup_entrywise h, ?_, ?_⟩
  · rw [setup_trace h]
    exact complete_nil
  · rw [setup_trace h]
    simp [endings, ended, endedFrom]

/-- Along a run the responses of the requests processed join those that were
ended or pending. -/
theorem eventLoop_books (hb : Books s) (h : eventLoop s answers = .ok s') : Books s' ∧
    (endedResponses s.trace ++ s.entries.flatMap pendingResponse ++
        (processedRun s answers).map Processed.done).Perm
      (endedResponses s'.trace ++ s'.entries.flatMap pendingResponse) := by
  induction answers generalizing s with
  | nil =>
    cases h
    rw [processedRun, List.map_nil, List.append_nil]
    exact ⟨hb, List.Perm.refl _⟩
  | cons a answers ih =>
    obtain ⟨s₁, h1, h2⟩ := Run.run_cons_ok h
    cases a with
    | eintr =>
      cases h1
      exact ih hb h2
    | fatal => cases h1
    | ready r =>
      obtain ⟨t, new, order, rfl, he⟩ := pollRound_ok hb.clients.pos hb.clients.least h1
      obtain ⟨hb', hrest⟩ := ih ((round_books he hb).tick _) h2
      refine ⟨hb', ?_⟩
      rw [processedRun_ready he h1, List.map_append, ← List.append_assoc]
      exact ((round_balance he hb).append_right _).trans hrest

/-- A property of entries that runs keep can be relied on wherever a request is
processed. -/
theorem processedRun_entrywise {Q : Entry → Prop} {P : Processed → Prop}
    (hfresh : ∀ a e, IsFresh a e → Q e) (hpoll : ∀ e m, Q e → Q ({ e.1 with revents := m }, e.2))
    (hkept : ∀ r round e v e', Q e → visitEntry r round e = .ok v → v.kept = some e' → Q e')
    (hvisit : ∀ r, .ready r ∈ answers → ∀ round e q, Q e → processedBy r round e = some q → P q)
    (hs : Entrywise Q s) : ∀ q ∈ processedRun s answers, P q := by
  induction answers generalizing s with
  | nil => simp [processedRun]
  | cons a answers ih =>
    cases hstep : s.step a with
    | error x => simp [processedRun, hstep]
    | ok s' =>
      have hrest := fun r h => hvisit r (List.mem_cons_of_mem a h)
      intro q hq
      simp only [processedRun, hstep, List.mem_append] at hq
      cases a with
      | eintr =>
        cases hstep
        exact ih hrest hs q (hq.resolve_left List.not_mem_nil)
      | fatal => cases hstep
      | ready r =>
        obtain ⟨t, new, order, rfl, he⟩ := pollRound_ok hs.pos hs.least hstep
        have hafter := he.entrywise hs (fun a _ => hfresh a) hpoll
          fun e _ v e' => hkept r s.round e v e'
        have hbefore := he.forall_order hs.all hfresh hpoll
        rcases hq with hq | hq
        · change q ∈ (examined (t.trace.drop s.trace.length)).filterMap _ at hq
          rw [round_processed he] at hq
          obtain ⟨e, ho, hq⟩ := List.mem_filterMap.mp hq
          exact hvisit r List.mem_cons_self s.round e q (hbefore e ho) hq
        · have hnext : Entrywise Q { t with round := s.round + 1 } :=
            ⟨hafter.pos, hafter.least, hafter.all⟩
          exact ih hrest hnext q hq

theorem processedRun_all {P : Processed → Prop} (hb : Books s)
    (hvisit : ∀ r, .ready r ∈ answers → ∀ round e q, Staging e.2 →
      processedBy r round e = some q → P q) : ∀ q ∈ processedRun s answers, P q := by
  refine processedRun_entrywise ?_ ?_ ?_ (fun r hr round e q hq => hvisit r hr round e q hq.1)
    hb.clients
  · intro a e hf
    obtain ⟨old, rfl⟩ := hf
    exact initClient_staging _ _ _
  · exact fun e m hq => hq
  · intro r round e v e' hq hv hk
    exact (visitEntry_account hq.1 hq.2 hv).kept e' hk

theorem ended_processed {pfds : ℕ → PollFd} {clients : ℕ → Client} {v4 v6 : Option ℕ}
    {s₀ : Server} (h0 : setup pfds clients v4 v6 = .ok s₀) (h : eventLoop s₀ answers = .ok s)
    {x : Ending} (hx : x ∈ endings s.trace) :
    x.sent = [] ∨ x.client.outBuf = some x.sent ∧
      ∃ q ∈ processedRun s₀ answers, q.done = x.client.asStaged := by
  obtain ⟨hb, hperm⟩ := eventLoop_books (setup_books h0) h
  rw [setup_trace h0, setup_empty h0] at hperm
  cases hb.whole x hx with
  | nothing hsent hshut => exact Or.inl hsent
  | all hans hout hshut =>
    refine Or.inr ⟨hout, ?_⟩
    have hmem : x.client.asStaged ∈ endedResponses s.trace :=
      List.mem_map_of_mem (List.mem_filter.mpr ⟨List.mem_map_of_mem hx, hans⟩)
    exact List.mem_map.mp (hperm.mem_iff.mpr (List.mem_append_left _ hmem))

theorem drain_endings {order : List Entry} (hc : Complete Event.link Event.ends s.trace)
    {i : ℕ} (h : DrainEffect s i order s') :
    endings s'.trace = endings s.trace ++ order.flatMap fun e => [⟨e.2, [], false⟩] := by
  have hone : ∀ c : Client, Complete Event.link Event.ends (closeEvents c) ∧
      endings (closeEvents c) = [⟨c, [], false⟩] := by
    intro c
    have hbefore : ∀ x ∈ ([] : List Event), x.link = none := by simp
    have hown : ∀ y ∈ ([] : List Event), y.link = some c.fd ∧ y.ends = false := by simp
    exact endings_close hbefore hown
  have heach : ∀ e ∈ order, Complete Event.link Event.ends (closeEvents e.2) :=
    fun e _ => (hone e.2).1
  obtain ⟨-, hend⟩ := ended_flatMap (fun e : Entry => closeEvents e.2) heach
  rw [h.trace, endings_append hc, endings, endings, hend, List.filterMap_flatMap]
  exact congrArg _ (List.flatMap_congr fun e _ => (hone e.2).2)

theorem drain_books {order : List Entry} (hb : Books s)
    (h : DrainEffect s s.numListeners order s') :
    (∀ x ∈ endings s'.trace, x.Whole) ∧
      (endedResponses s.trace ++ s.entries.flatMap pendingResponse).Perm
        (endedResponses s'.trace) := by
  have hend := drain_endings hb.complete h
  have hst : ∀ e ∈ order, Staging e.2 := fun e ho =>
    (hb.clients.all e (h.perm.mem_iff.mp ho)).1
  refine ⟨?_, ?_⟩
  · rw [hend]
    intro x hx
    rcases List.mem_append.mp hx with hx | hx
    · exact hb.whole x hx
    · obtain ⟨e, -, hx⟩ := List.mem_flatMap.mp hx
      rw [List.mem_singleton.mp hx]
      exact .nothing rfl rfl
  · have hresp : endedResponses s'.trace =
        endedResponses s.trace ++ order.flatMap pendingResponse := by
      simp only [endedResponses, hend, List.map_append, List.filter_append, List.map_flatMap,
        List.filter_flatMap]
      exact congrArg _ (List.flatMap_congr fun e ho => ended_pending (hst e ho))
    rw [hresp]
    exact (h.perm.symm.flatMap_right _).append_left _

end Runs

/-- Whatever the interleaving, a connection that has ended had been sent
nothing or the whole of its response and then the end of the stream; and the
responses of the requests processed are those of the connections that have
ended and of those that wait, none lost and none invented. Behind the shutdown
loop nothing waits. -/
theorem responses_whole_and_conserved {pfds : ℕ → PollFd} {clients : ℕ → Client}
    {v4 v6 : Option ℕ} {s₀ s : Server} {answers : List PollAnswer}
    (h0 : setup pfds clients v4 v6 = .ok s₀) (h : eventLoop s₀ answers = .ok s) :
    (∀ x ∈ endings s.trace, x.Whole) ∧
    ((processedRun s₀ answers).map Processed.done).Perm
      (endedResponses s.trace ++ s.entries.flatMap pendingResponse) ∧
    ∀ fuel s', shutdownLoop fuel s s.numListeners = .ok s' →
      (∀ x ∈ endings s'.trace, x.Whole) ∧
        ((processedRun s₀ answers).map Processed.done).Perm (endedResponses s'.trace) := by
  obtain ⟨hb, hperm⟩ := eventLoop_books (setup_books h0) h
  rw [setup_trace h0, setup_empty h0] at hperm
  refine ⟨hb.whole, hperm, ?_⟩
  intro fuel s' hs
  obtain ⟨order, hdrain⟩ := shutdownLoop_drain hb.clients.pos hs
  obtain ⟨hwhole, hrest⟩ := drain_books hb hdrain
  exact ⟨hwhole, hperm.trans hrest⟩

def oneOfTwo (env : Env) (rs : List RecvResult) : List PollAnswer :=
  [.ready (acceptRound [7, 8]), .ready (readRound env rs),
    .ready { writeRound [.ret 1000] with revents := fun i => if i = 1 then pollOut else 0 }]

theorem responses_whole_and_conserved_oneOfTwo :
    ∃ s s', eventLoop startServer (oneOfTwo listingEnv getRoot) = .ok s ∧
      shutdownLoop 2 s s.numListeners = .ok s' ∧ (endings s.trace).length = 1 ∧
      (endings s'.trace).length = 2 ∧
      ((processedRun startServer (oneOfTwo listingEnv getRoot)).map Processed.done).Perm
        (endedResponses s'.trace) := by
  obtain ⟨s, hs, ht⟩ := Run.arrives_iff.mp (show Run.arrives
    (fun s => decide ((endings s.trace).length = 1) &&
      Run.arrives (fun s' => decide ((endings s'.trace).length = 2))
        (shutdownLoop 2 s s.numListeners))
    (eventLoop startServer (oneOfTwo listingEnv getRoot)) = true by decide +kernel)
  rw [Bool.and_eq_true, decide_eq_true_eq] at ht
  obtain ⟨s', hs', ht'⟩ := Run.arrives_iff.mp ht.2
  exact ⟨s, s', hs, hs', ht.1, of_decide_eq_true ht',
    ((responses_whole_and_conserved setup_startServer hs).2.2 2 s' hs').2⟩

end SimpleServer
