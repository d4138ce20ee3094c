import SimpleServer.SoloRun
import SimpleServer.Refinement

/-!
# Who waits for whom

In whichever slots its record has lain and whoever else was served in between,
the bytes that have been heard on its descriptor since it was accepted decide
where a connection stands: without a terminator among them it is `READING`, with
one it has its response staged, and past the limit it is stuck with what it held
before. Whenever `poll` is called, a request that is complete has been answered,
and a response that is still there belongs to a socket that the last poll did
not report as writable.
-/

namespace SimpleServer

open CString FileTree SlotArray

def heard : List RecvResult → Bytes
  | [] => []
  | .data chunk _ :: rest => chunk.bytes ++ heard rest
  | .eof :: _ => []
  | .fail e :: rest => if e = .EINTR then heard rest else []

def hears (r : Round) (e : Entry) : Bytes :=
  if e.1.revents &&& pollFailed = 0 ∧ e.1.revents &&& pollIn ≠ 0 ∧ e.2.state = .reading then
    heard (r.recvs e.2.fd)
  else []

def noteHeard (fd : ℕ) (s : Server) : PollAnswer → Bytes → Bytes
  -- a descriptor that is not connected starts anew
  | .ready r, got => ((s.polled r).record fd).elim [] fun e => got ++ hears r e
  | _, got => got

/-- What a run has heard on a descriptor since it was last accepted. -/
def heardFrom (fd : ℕ) (s : Server) (answers : List PollAnswer) : Bytes :=
  Run.tally Server.step (noteHeard fd) [] s answers

/-- Where a connection stands when `got` has been heard from its peer. -/
inductive Stands (e : Entry) (got : Bytes) : Prop
  | asking : e.2.state = .reading → e.1.events = pollIn → e.2.received = got →
      got.length ≤ maxRequestSize → findSub headerEnd (cstr got) = none → Stands e got
  | answered : e.2.state = .sendingHeader → e.1.events = pollOut → e.2.received = got →
      got.length ≤ maxRequestSize → findSub headerEnd (cstr got) ≠ none → e.2.outputSent = 0 →
      Stands e got
  | stuck : e.2.state = .processing → e.2.respVal = .resp414 → maxRequestSize < got.length →
      e.2.received <+: got → e.2.received.length ≤ maxRequestSize → Stands e got

/-- The last poll did not find that the response could be sent. -/
def NoRoom (e : Entry) : Prop := e.2.state = .sendingHeader → e.1.revents &&& pollOut = 0

section Drains

variable {c : Client}

inductive Drained (c : Client) (rs : List RecvResult) : Client × Bool → Prop
  | all (c' : Client) : c'.state = .reading ∨ c'.state = .closing →
      c'.received = c.received ++ heard rs → c'.inputLength ≤ maxRequestSize →
      Drained c rs (c', true)
  | tooLong (c' : Client) : c'.state = .processing → c'.respVal = .resp414 →
      maxRequestSize < (c.received ++ heard rs).length →
      c'.received <+: c.received ++ heard rs → c'.received.length ≤ maxRequestSize →
      Drained c rs (c', false)
  | lost (c' : Client) : c'.state = .closing → Drained c rs (c', false)

theorem Drained.of_heard {c' : Client} {rs rs' : List RecvResult} {d : Client × Bool}
    (hall : c'.received ++ heard rs' = c.received ++ heard rs) (h : Drained c' rs' d) :
    Drained c rs d := by
  cases h with
  | all c'' hst hrec hlen => exact .all c'' hst (hrec.trans hall) hlen
  | tooLong c'' hst hresp hlen hpre hle =>
    exact .tooLong c'' hst hresp (hall ▸ hlen) (hall ▸ hpre) hle
  | lost c'' hst => exact .lost c'' hst

theorem recvLoop_drained (rs : List RecvResult) (hst : c.state = .reading) (hs : c.Stored)
    (hlen : c.inputLength ≤ maxRequestSize) : Drained c rs (recvLoop c rs) := by
  induction rs generalizing c with
  | nil => exact .all c (Or.inl hst) (List.append_nil _).symm hlen
  | cons a rs ih =>
    cases a with
    | data chunk realloc =>
      simp only [recvLoop]
      by_cases hover : maxRequestSize < c.inputLength + chunk.bytes.length
      · rw [append_over hover, if_pos (by simp)]
        refine .tooLong _ rfl rfl ?_ (List.prefix_append _ _) (hs.trans_le hlen)
        rw [heard, List.length_append, List.length_append, hs]
        omega
      by_cases hg : c.inputCapacity < c.inputLength + chunk.bytes.length ∧ realloc = false
      · rw [append_failed hover hg, if_pos (by simp)]
        exact .lost _ rfl
      · obtain ⟨cap, hstore⟩ := append_stored hover hg
        obtain ⟨hs', -⟩ := append_received hs chunk.bytes realloc
        have hrec : (append c chunk.bytes realloc).received = c.received ++ chunk.bytes := by
          have hall : (c.inBuf.getD []).take c.inputLength = c.received :=
            List.take_of_length_le (Nat.le_of_eq hs)
          rw [hstore, ← hall]
          rfl
        have hread : (append c chunk.bytes realloc).state = .reading := by
          rw [hstore]
          exact hst
        rw [if_neg (by simpa using hread)]
        refine .of_heard ?_ (ih hread hs' (append_length_le hlen))
        rw [hrec, heard, List.append_assoc]
    | eof => exact .lost _ rfl
    | fail e =>
      by_cases hi : e = .EINTR
      · have hloop : recvLoop c (.fail e :: rs) = recvLoop c rs := by
          rw [hi]
          rfl
        rw [hloop]
        refine .of_heard ?_ (ih hst hs hlen)
        rw [heard, if_pos hi]
      · have hheard : c.received = c.received ++ heard (.fail e :: rs) := by
          rw [heard, if_neg hi, List.append_nil]
        simp only [recvLoop, hi, if_false]
        split_ifs
        · exact .all _ (Or.inl hst) hheard hlen
        · exact .all _ (Or.inr rfl) hheard hlen

theorem requestIn_unfinished {rs : List RecvResult} (hs : (recvLoop c rs).1.Stored)
    (hflag : (recvLoop c rs).2 = true) (h : requestIn rs c = none) :
    findSub headerEnd (cstr (recvLoop c rs).1.received) = none := by
  simp only [requestIn, hflag, Bool.true_eq_false, if_false] at h
  rw [Client.Stored] at hs
  rw [Client.received] at hs ⊢
  cases hb : (recvLoop c rs).1.inBuf with
  | none => rfl
  | some buf =>
    simp only [hb, Option.getD_some] at h hs ⊢
    split_ifs at h with h0
    · rw [List.length_eq_zero_iff.mp (hs.trans h0)]
      rfl
    · rw [← hs, strnstr_length] at h
      cases hk : findSub headerEnd (cstr buf) with
      | none => rfl
      | some k =>
        rw [hk] at h
        cases h

theorem requestIn_complete {rs : List RecvResult} {q : Client × Bytes}
    (h : requestIn rs c = some q) : (recvLoop c rs).2 = true ∧
      ∃ k, strnstr q.2 headerEnd (recvLoop c rs).1.inputLength = some k ∧
        q.1 = { (recvLoop c rs).1 with headerLen := k + 4 } ∧
        (recvLoop c rs).1.received = q.2 := by
  have hfound : requestIn rs c = some (q.1, q.2) := h
  obtain ⟨k, hk, hq⟩ := requestIn_found hfound
  refine ⟨?_, k, hk, hq, requestIn_received h⟩
  by_contra hflag
  rw [requestIn, if_pos (Bool.not_eq_true _ ▸ hflag)] at h
  cases h

end Drains

section Visits

variable {r : Round} {round : ℕ} {e e' : Entry} {v : Visit} {got : Bytes}

theorem readEntry_stands (h : Stands e got) (hs : e.2.Stored) (hst : Staging e.2)
    (hz : e.1.revents &&& pollFailed = 0) (hne : (readEntry r round e).client.state ≠ .closing) :
    Stands ((readEntry r round e).pollFd, (readEntry r round e).client) (got ++ hears r e) := by
  by_cases hin : e.1.revents &&& pollIn ≠ 0 ∧ e.2.state = .reading
  · have hread : readEntry r round e =
        doRead (r.env e.2.fd) round (r.recvs e.2.fd) e.2 e.1 := if_pos hin
    have hhears : hears r e = heard (r.recvs e.2.fd) := if_pos ⟨hz, hin⟩
    obtain ⟨hpoll, hgot, hlen⟩ : e.1.events = pollIn ∧ e.2.received = got ∧
        got.length ≤ maxRequestSize := by
      cases h with
      | asking _ hp hg hl _ => exact ⟨hp, hg, hl⟩
      | answered hx => cases hin.2.symm.trans hx
      | stuck hx => cases hin.2.symm.trans hx
    obtain ⟨hs', -⟩ := recvLoop_received hs (r.recvs e.2.fd)
    have hd := recvLoop_drained (r.recvs e.2.fd) hin.2 hs (by rw [← hs, hgot]; exact hlen)
    rw [hread, doRead_requestIn] at hne ⊢
    rw [hhears]
    cases hreq : requestIn (r.recvs e.2.fd) e.2 with
    | none =>
      rw [hreq] at hne
      have hfin : (recvLoop e.2 (r.recvs e.2.fd)).2 = true → requestIn (r.recvs e.2.fd) e.2 = none →
          findSub headerEnd (cstr (recvLoop e.2 (r.recvs e.2.fd)).1.received) = none :=
        requestIn_unfinished hs'
      generalize recvLoop e.2 (r.recvs e.2.fd) = d at hd hne hs' hfin ⊢
      cases hd with
      | all c' hc hrec hl =>
        rw [hgot] at hrec
        refine .asking (hc.resolve_right hne) hpoll hrec ?_ ?_
        · rw [← hrec, hs']
          exact hl
        · rw [← hrec]
          exact hfin rfl hreq
      | tooLong c' hc hresp hl hpre hle =>
        rw [hgot] at hl hpre
        exact .stuck hc hresp hl hpre hle
      | lost c' hc => exact absurd hc hne
    | some q =>
      obtain ⟨hflag, k, hk, hq, hbuf⟩ := requestIn_complete hreq
      obtain ⟨hstaging, hnot⟩ := recvLoop_staging (r.recvs e.2.fd) hst hin.2
      have hserved : Staging (serve (r.env e.2.fd) round q.1 e.1 q.2).client := by
        apply serve_staging
        · rw [hq]
          exact hstaging.unsent
        · rw [hq]
          exact hstaging.unstaged hnot
      have hrec : (serve (r.env e.2.fd) round q.1 e.1 q.2).client.received =
          (recvLoop e.2 (r.recvs e.2.fd)).1.received := by
        have hframe : (respond (r.env e.2.fd) round q.1 q.2).client.received = q.1.received := by
          rw [respond_frame.eq]
          rfl
        exact hframe.trans (by rw [hq]; rfl)
      generalize recvLoop e.2 (r.recvs e.2.fd) = d at hd hrec hs' hflag hk hbuf
      cases hd with
      | all c' hc hall hl =>
        rw [hgot] at hall
        have hlen' : (got ++ heard (r.recvs e.2.fd)).length ≤ maxRequestSize := by
          rw [← hall, hs']
          exact hl
        refine .answered rfl rfl (hrec.trans hall) hlen' ?_ hserved.unsent
        rw [← hall, ← strnstr_length, hs', hbuf, hk]
        exact Option.some_ne_none k
      | tooLong c' hc hresp hl => cases hflag
      | lost c' hc => cases hflag
  · have hread : readEntry r round e = ⟨e.2, e.1, []⟩ := if_neg hin
    have hhears : hears r e = [] := if_neg fun h => hin h.2
    rw [hread, hhears, List.append_nil]
    exact h

theorem visitEntry_noRoom (hv : visitEntry r round e = .ok v)
    (hk : v.kept = some e') : NoRoom e' := by
  intro hsend
  cases visitEntry_cases hv with
  | idle h0 =>
    cases hk
    rw [h0]
    decide
  | failed h0 h1 => cases hk
  | closing w h0 hz hw hc => cases hk
  | kept w h0 hz hw hc =>
    cases hk
    have hw' := (writeEntry_cases hw).resolve_right hc
    have hpoll : (readEntry r round e).pollFd.revents = e.1.revents := by
      rw [readEntry]
      split_ifs
      · rw [doRead_requestIn]
        cases requestIn (r.recvs e.2.fd) e.2 <;> rfl
      · rfl
    change (readEntry r round e).pollFd.revents &&& pollOut = 0
    rw [hpoll]
    by_contra hout
    rw [hw'] at hsend
    rw [writeEntry, if_pos ⟨hout, Or.inl hsend⟩] at hw
    exact hc (doWrite_ok hw).1

theorem visitEntry_stands (h : Stands e got) (hs : e.2.Stored) (hst : Staging e.2)
    (hv : visitEntry r round e = .ok v) (hk : v.kept = some e') :
    Stands e' (got ++ hears r e) := by
  rcases visitEntry_kept hv hk with ⟨rfl, h0⟩ | ⟨hz, hne, rfl⟩
  · have hhears : hears r e' = [] := by
      rw [hears, h0]
      exact if_neg fun h => h.2.1 (by decide)
    rw [hhears, List.append_nil]
    exact h
  · exact readEntry_stands h hs hst hz hne

structure Kept (e : Entry) (got : Bytes) : Prop where
  stored : e.2.Stored
  stands : Stands e got
  noRoom : NoRoom e

theorem Stands.polled (h : Stands e got) (m : PollMask) :
    Stands ({ e.1 with revents := m }, e.2) got := by
  cases h with
  | asking h1 h2 h3 h4 h5 => exact .asking h1 h2 h3 h4 h5
  | answered h1 h2 h3 h4 h5 h6 => exact .answered h1 h2 h3 h4 h5 h6
  | stuck h1 h2 h3 h4 h5 => exact .stuck h1 h2 h3 h4 h5

theorem Kept.visit {m : PollMask} (h : Kept e got) (hst : Staging e.2)
    (hv : visitEntry r round ({ e.1 with revents := m }, e.2) = .ok v) (hk : v.kept = some e') :
    Kept e' (got ++ hears r ({ e.1 with revents := m }, e.2)) := by
  have hst' : Staging (({ e.1 with revents := m }, e.2) : Entry).2 := hst
  have hs' : (({ e.1 with revents := m }, e.2) : Entry).2.Stored := h.stored
  exact ⟨visitEntry_stored hs' hv hk, visitEntry_stands (h.stands.polled m) hs' hst' hv hk,
    visitEntry_noRoom hv hk⟩

theorem kept_fresh {a : Accepted} (h : IsFresh a e) : Kept e [] := by
  obtain ⟨old, rfl⟩ := h
  exact ⟨rfl, .asking rfl rfl rfl (Nat.zero_le _) rfl, fun hsend => by cases hsend⟩

end Visits

section Runs

variable {r : Round} {s s' : Server} {a : PollAnswer} {fd : ℕ} {e : Entry} {got : Bytes}

structure Follows (fd : ℕ) (s : Server) (got : Bytes) : Prop where
  inv : s.Inv
  books : Books s
  kept : ∀ e, s.record fd = some e → Kept e got

theorem polled_record (hs : s.Inv) :
    (s.polled r).record fd = some e ↔ e ∈ (s.polled r).entries ∧ e.fd = fd := by
  refine view_eq_some ?_
  change ((s.polled r).entries.map Entry.fd).Nodup
  rw [polled_fds]
  exact hs.distinct

theorem record_fresh (hs : s.Inv) (hk : FreshFds r s) (hnone : s.record fd = none)
    (h : s.step (.ready r) = .ok s') (hr : s'.record fd = some e) :
    ∃ a ∈ registeredFrom r (s.polled r) 0, IsFresh a e := by
  have hinv : s'.Inv := step_inv (a := .ready r) hs hk h
  obtain ⟨hmem, hfd⟩ := (record_eq_some hinv).mp hr
  obtain ⟨t, new, order, rfl, he⟩ := pollRound_ok hs.pos hs.least h
  obtain ⟨y, hy, hkept⟩ := (mem_left he).mp hmem
  have hyfd : y.fd = fd := ((eventsOf_facts he hy).kept e hkept).1.symm.trans hfd
  rcases (mem_order he).mp hy with hm | hm
  · obtain ⟨y₀, h0, m, rfl⟩ := polled_entry hm
    have hrec : s.record fd = some y₀ := (record_eq_some hs).mpr ⟨h0, hyfd⟩
    rw [hnone] at hrec
    cases hrec
  · have hidle := (eventsOf_facts he hy).idle (fresh_revents he.fresh y hm)
    simp only [hkept, Option.some.injEq] at hidle
    rw [hidle]
    exact fresh_all (Q := fun y => ∃ a ∈ registeredFrom r (s.polled r) 0, IsFresh a y)
      (fun a ha y hf => ⟨a, ha, hf⟩) he.fresh y hm

theorem Follows.step (h : Follows fd s got) (hk : NewFdsFresh s a) (hstep : s.step a = .ok s') :
    Follows fd s' (noteHeard fd s a got) := by
  cases a with
  | eintr =>
    cases hstep
    exact h
  | fatal => cases hstep
  | ready r =>
    refine ⟨step_inv (a := .ready r) h.inv hk hstep, ?_, fun e' hr' => ?_⟩
    · obtain ⟨t, new, order, rfl, he⟩ := pollRound_ok h.inv.pos h.inv.least hstep
      exact (round_books he h.books).tick _
    · cases hrec : s.record fd with
      | none =>
        have hpolled : (s.polled r).record fd = none := by
          rw [Option.eq_none_iff_forall_ne_some]
          intro x hx
          obtain ⟨hm, hfd⟩ := (polled_record h.inv).mp hx
          obtain ⟨y, hy, m, rfl⟩ := polled_entry hm
          rw [(record_eq_some h.inv).mpr ⟨hy, hfd⟩] at hrec
          cases hrec
        obtain ⟨b, -, hf⟩ := record_fresh h.inv hk hrec hstep hr'
        rw [noteHeard, hpolled]
        exact kept_fresh hf
      | some e =>
        obtain ⟨m, v, hm, hv, hrec', -⟩ := client_step h.inv hk hrec hstep
        obtain ⟨hmem, hfd⟩ := (record_eq_some h.inv).mp hrec
        have hpolled : (s.polled r).record fd = some ({ e.1 with revents := m }, e.2) :=
          (polled_record h.inv).mpr ⟨hm, hfd⟩
        rw [noteHeard, hpolled]
        exact (h.kept e hrec).visit (h.books.clients.all e hmem).1 hv (hrec'.symm.trans hr')

theorem eventLoop_follows {pfds : ℕ → PollFd} {clients : ℕ → Client} {v4 v6 : Option ℕ}
    {s₀ : Server} {answers : List PollAnswer} (h0 : setup pfds clients v4 v6 = .ok s₀)
    (hf : Run.Along Server.step NewFdsFresh s₀ answers) (h : eventLoop s₀ answers = .ok s)
    (fd : ℕ) : Follows fd s (heardFrom fd s₀ answers) := by
  have hstart : Follows fd s₀ [] := by
    refine ⟨setup_inv h0, setup_books h0, fun x hx => ?_⟩
    have hmem := ((record_eq_some (setup_inv h0)).mp hx).1
    rw [setup_entries h0] at hmem
    cases hmem
  exact Run.invariant_tally (fun _ _ _ _ hi hk hs => hi.step hk hs) hstart hf h

end Runs

/-- A request of the run is made of what has been heard, and has left this record;
a response is staged in it if the stream for errors can be opened. -/
structure Processed.Leaves (q : Processed) (e : Entry) (got : Bytes) : Prop where
  bytes : q.buf = got
  record : q.done = e.2
  staged : q.env.errorStream = true → Staged e.2

/-- Whenever `poll` is called, what has been heard from the peer of a connection
decides where the connection stands: no complete request is left unanswered,
and no response that the last poll found could be sent is left unsent. -/
theorem connections_wait_for_peers {pfds : ℕ → PollFd} {clients : ℕ → Client} {v4 v6 : Option ℕ}
    {s₀ s : Server} {answers : List PollAnswer} (h0 : setup pfds clients v4 v6 = .ok s₀)
    (hf : Run.Along Server.step NewFdsFresh s₀ answers) (h : eventLoop s₀ answers = .ok s) :
    ∀ e ∈ s.entries, Stands e (heardFrom e.fd s₀ answers) ∧ NoRoom e ∧
      (e.2.state = .sendingHeader →
        ∃ q ∈ processedRun s₀ answers, q.Leaves e (heardFrom e.fd s₀ answers)) := by
  intro e he
  have hend := eventLoop_follows h0 hf h e.fd
  have hkept := hend.kept e ((record_eq_some hend.inv).mpr ⟨he, rfl⟩)
  refine ⟨hkept.stands, hkept.noRoom, fun hst => ?_⟩
  obtain ⟨q, hq, -, hdone, hbuf⟩ := sending_processed h0 h he hst
  refine ⟨q, hq, ?_, hdone, fun hstream => ?_⟩
  · rw [hbuf]
    cases hkept.stands with
    | asking hr => cases hst.symm.trans hr
    | answered _ _ hgot => exact hgot
    | stuck hp => cases hst.symm.trans hp
  · have hstaged : Staged (respond q.env q.round q.client q.buf).client := respond_staged hstream
    rw [← hdone]
    exact ⟨hstaged.code, hstaged.response, hstaged.length⟩

def piece (bytes : Bytes) (h0 : 0 < bytes.length) (h : bytes.length ≤ tempBuffer) :
    List RecvResult := [.data ⟨bytes, h0, h⟩ true]

def inPieces : List PollAnswer :=
  [.ready (acceptRound [7, 8]),
    .ready (readRound listingEnv (piece (ascii "GET / HTTP/1.0\r") (by decide) (by decide))),
    .eintr,
    .ready (readRound listingEnv (piece (ascii "\n\r\n") (by decide) (by decide)))]

theorem connections_wait_for_peers_inPieces :
    ∃ s, eventLoop startServer inPieces = .ok s ∧ ∃ e ∈ s.entries, e.fd = 8 ∧
      e.2.state = .sendingHeader ∧ e.2.received = ascii "GET / HTTP/1.0" ++ headerEnd ∧
      NoRoom e ∧ ∃ q ∈ processedRun startServer inPieces,
        q.Leaves e (ascii "GET / HTTP/1.0" ++ headerEnd) := by
  have hf : Run.Along Server.step NewFdsFresh startServer inPieces := by decide +kernel
  have hheard : heardFrom 8 startServer inPieces = ascii "GET / HTTP/1.0" ++ headerEnd := by
    decide +kernel
  obtain ⟨s, hs, ht⟩ := Run.arrives_iff.mp (show Run.arrives
    (fun s => s.entries.any fun e => decide (e.fd = 8 ∧ e.2.state = .sendingHeader))
    (eventLoop startServer inPieces) = true by decide +kernel)
  obtain ⟨e, he, hw⟩ := List.any_eq_true.mp ht
  obtain ⟨hfd, hst⟩ := of_decide_eq_true hw
  obtain ⟨hstands, hroom, hleft⟩ := connections_wait_for_peers setup_startServer hf hs e he
  rw [hfd, hheard] at hstands hleft
  cases hstands with
  | asking h => cases hst.symm.trans h
  | answered h1 h2 h3 => exact ⟨s, hs, e, he, hfd, hst, h3, hroom, hleft hst⟩
  | stuck h => cases hst.symm.trans h

end SimpleServer
