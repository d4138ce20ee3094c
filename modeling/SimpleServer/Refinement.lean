import SimpleServer.RequestLine
import SimpleServer.Lib.Service

/-!
# The server as a service of one question and one answer

Seen from its peers, a server is the multiset of its open connections, each
with what its peer has sent and what it is to be sent, and the multiset of the
connections that have ended. Slots, capacities, poll masks and the order of the
sweep are gone, and a descriptor is but a name for the peer. Every visit of an
entry is a run of the service on that one connection, so every run of the event
loop is a run of the service from nothing: a peer is only ever sent the response
to what it has itself sent, and that response whole. With the outside given, the
response is a function of what the peer has sent.
-/

namespace SimpleServer

open CString FileTree SlotArray Service

def Client.received (c : Client) : Bytes := c.inBuf.getD []

/-- The response to what a peer has sent, in an environment; `none` where the
terminator is missing, or where no response can be staged. -/
def answerTo (env : Env) (got : Bytes) : Option Bytes :=
  (strnstr got headerEnd got.length).bind fun k =>
    (respond env 0 { blankClient with headerLen := k + 4 } got).client.outBuf

/-- A connection as the kernel names it and the address it came from. -/
abbrev Peer := ℕ × Bytes

def Client.peer (c : Client) : Peer := (c.fd, c.clientAddr)

/-- A peer that has sent `got` is answered as the outside, in one of the rounds
of the run, has it for the descriptor of this peer. -/
def Answers (answers : List PollAnswer) (peer : Peer) (got : Bytes) (msg : Option Bytes) : Prop :=
  ∃ r, .ready r ∈ answers ∧ (strnstr got headerEnd got.length).isSome = true ∧
    msg = answerTo (r.env peer.1) got

/-- A client is `CLOSING` only on its way out, when nothing is said to it any more. -/
def Client.phase (c : Client) : Phase Byte :=
  match c.state with
  | .reading => .receiving
  | .processing => .stalled
  | .sendingHeader => .sending c.outBuf
  | .sendingBody => .sending c.outBuf
  | .closing => .receiving

def Client.conn (c : Client) : Conn Peer Byte := ⟨c.peer, c.received, c.phase⟩

def Ending.outcome (x : Ending) : Ended Peer Byte := ⟨x.client.peer, x.client.received, x.sent⟩

def Server.service (s : Server) : State Peer Byte :=
  ⟨(s.entries.map fun e => e.2.conn : List _), ((endings s.trace).map Ending.outcome : List _)⟩

def Client.Stored (c : Client) : Prop := c.received.length = c.inputLength

section Reading

variable {c : Client}

theorem append_received (h : c.Stored) (data : Bytes) (realloc : Bool) :
    (append c data realloc).Stored ∧
      ∃ bs, (append c data realloc).received = c.received ++ bs := by
  by_cases hover : maxRequestSize < c.inputLength + data.length
  · rw [append_over hover]
    exact ⟨h, [], (List.append_nil _).symm⟩
  by_cases hg : c.inputCapacity < c.inputLength + data.length ∧ realloc = false
  · rw [append_failed hover hg]
    exact ⟨h, [], (List.append_nil _).symm⟩
  obtain ⟨cap, hs⟩ := append_stored hover hg
  have hall : (c.inBuf.getD []).take c.inputLength = c.received :=
    List.take_of_length_le (Nat.le_of_eq h)
  have hrec : (append c data realloc).received = c.received ++ data := by
    rw [hs, ← hall]
    rfl
  refine ⟨?_, data, hrec⟩
  rw [Client.Stored, hrec, List.length_append, h, hs]
  rfl

theorem recvLoop_received (h : c.Stored) (rs : List RecvResult) :
    (recvLoop c rs).1.Stored ∧ ∃ bs, (recvLoop c rs).1.received = c.received ++ bs := by
  refine recvLoop_induct (P := fun c' => c'.Stored ∧ ∃ bs, c'.received = c.received ++ bs) rs
    ⟨h, [], (List.append_nil _).symm⟩ ?_ (fun _ _ hc => hc)
  intro c' data realloc hc'
  obtain ⟨hst, bs, hbs⟩ := hc'
  obtain ⟨hst', bs', hbs'⟩ := append_received hst data realloc
  exact ⟨hst', bs ++ bs', by rw [hbs', hbs, List.append_assoc]⟩

theorem requestIn_received {rs : List RecvResult} {q : Client × Bytes}
    (h : requestIn rs c = some q) : (recvLoop c rs).1.received = q.2 := by
  simp only [requestIn] at h
  split at h
  · cases h
  split at h
  · cases h
  rename_i buf hbuf
  split at h
  · cases h
  split at h
  · cases h
  cases h
  rw [Client.received, hbuf]
  rfl

end Reading

theorem respond_answerTo {env : Env} {round k : ℕ} {c : Client} {buf : Bytes}
    (hfit : OutputFits env) (hresp : c.respVal = .numClientResp) (hout : c.outBuf = none)
    (hk : strnstr buf headerEnd buf.length = some k) (hlen : c.headerLen = k + 4) :
    (respond env round c buf).client.outBuf = answerTo env buf := by
  have hterm : k + 4 ≠ 0 ∧ strnstr buf headerEnd (k + 4) ≠ none := (found_terminated hk).2
  have hparse : SameParse (parsed env { blankClient with headerLen := k + 4 } buf)
      (parsed env c buf) := by
    refine parsed_sameLine hterm (hlen ▸ hterm) hresp ?_
    rw [hlen]
    exact .same _
  rw [answerTo, hk, Option.bind_some]
  exact (respond_same 0 round hfit rfl hout hparse).1

section Visits

variable {r : Round} {round : ℕ} {e : Entry} {v : Visit} {all : List PollAnswer}

theorem steps_receive {c c' : Client} {bs : Bytes} (hpeer : c'.peer = c.peer)
    (hbs : c'.received = c.received ++ bs) (hst : c.phase = .receiving) {phase : Phase Byte}
    (h : Steps (Answers all) ⟨{⟨c.peer, c.received ++ bs, .receiving⟩}, 0⟩
      ⟨{⟨c.peer, c.received ++ bs, phase⟩}, 0⟩) (hp : c'.phase = phase) :
    Steps (Answers all) ⟨{c.conn}, 0⟩ ⟨{c'.conn}, 0⟩ := by
  rw [Client.conn, Client.conn, hst, hpeer, hbs, hp]
  exact .head (Step.receive _ _ bs 0 0) h

theorem readEntry_stored (hs : e.2.Stored) : (readEntry r round e).client.Stored := by
  obtain ⟨c, hc, hf⟩ : ∃ c, _ ∧ ServeFrame _ (readEntry r round e).client := readEntry_left
  have hst : c.Stored := by
    rcases hc with rfl | rfl
    · exact hs
    · exact (recvLoop_received hs _).1
  rw [hf.eq]
  exact hst

theorem visitEntry_stored {e' : Entry} (hs : e.2.Stored) (hv : visitEntry r round e = .ok v)
    (hk : v.kept = some e') : e'.2.Stored := by
  rcases visitEntry_kept hv hk with ⟨rfl, -⟩ | ⟨-, -, rfl⟩
  · exact hs
  · exact readEntry_stored hs

theorem readEntry_steps (round : ℕ) (hr : .ready r ∈ all) (hfit : OutputFits (r.env e.2.fd))
    (h : Staging e.2) (hs : e.2.Stored) :
    Steps (Answers all) ⟨{e.2.conn}, 0⟩ ⟨{(readEntry r round e).client.conn}, 0⟩ := by
  by_cases hin : e.1.revents &&& pollIn ≠ 0 ∧ e.2.state = .reading
  · have hread : readEntry r round e =
        doRead (r.env e.2.fd) round (r.recvs e.2.fd) e.2 e.1 := if_pos hin
    have hphase : e.2.phase = .receiving := by rw [Client.phase, hin.2]
    have hpeer := congrArg Client.peer (recvLoop_frame e.2 (r.recvs e.2.fd)).eq
    obtain ⟨hst, bs, hbs⟩ := recvLoop_received hs (r.recvs e.2.fd)
    rw [doRead_requestIn] at hread
    cases hreq : requestIn (r.recvs e.2.fd) e.2 with
    | none =>
      rw [hreq] at hread
      rw [hread]
      rcases recvLoop_undecided (r.recvs e.2.fd) hin.2 (h.undecided (Or.inl hin.2)) with
        ⟨ho, -⟩ | ⟨ho, -⟩
      · refine steps_receive hpeer hbs hphase .refl ?_
        rcases ho with ho | ho <;> rw [Client.phase, ho]
      · exact steps_receive hpeer hbs hphase (.single (Step.stall _ _ 0 0))
          (by rw [Client.phase, ho])
    | some q =>
      rw [hreq] at hread
      rw [hread]
      have hfound : requestIn (r.recvs e.2.fd) e.2 = some (q.1, q.2) := hreq
      obtain ⟨k, hk, hq⟩ := requestIn_found hfound
      obtain ⟨hresp, hout⟩ := requestIn_unanswered h hin.2 hfound
      have hbuf := requestIn_received hreq
      have hframe : (respond (r.env e.2.fd) round q.1 q.2).client = _ := respond_frame.eq
      have hpeer' : (respond (r.env e.2.fd) round q.1 q.2).client.peer = e.2.peer := by
        rw [hframe, hq]
        exact hpeer
      have hrec : (respond (r.env e.2.fd) round q.1 q.2).client.received =
          (recvLoop e.2 (r.recvs e.2.fd)).1.received := by
        rw [hframe, hq]
        rfl
      have hans : Answers all e.2.peer (e.2.received ++ bs)
          (respond (r.env e.2.fd) round q.1 q.2).client.outBuf := by
        have hgot : strnstr q.2 headerEnd q.2.length = some k := by
          rw [← hbuf, hst, hbuf]
          exact hk
        rw [← hbs, hbuf]
        exact ⟨r, hr, by rw [hgot]; rfl,
          respond_answerTo hfit hresp hout hgot (by rw [hq])⟩
      exact steps_receive hpeer' (hrec.trans hbs) hphase
        (.single (Step.answer _ _ _ 0 0 hans)) rfl
  · have hread : (readEntry r round e).client = e.2 := by rw [readEntry, if_neg hin]
    rw [hread]

theorem writeEntry_steps {c : Client} {w : WriteOutcome} (hw : WriteStaging c w) :
    Steps (Answers all) ⟨{c.conn}, 0⟩ ⟨0, {Ending.outcome
      ⟨w.client, w.events.flatMap Event.bytes, w.events.any Event.shuts⟩}⟩ := by
  cases hw with
  | untouched => exact .single (Step.drop _ 0 0)
  | empty hst => exact .single (Step.drop _ 0 0)
  | delivered w out hst ho hcl hbytes hshut =>
    obtain ⟨sent, hcl⟩ := hcl
    have hconn : c.conn = ⟨c.peer, c.received, .sending (some out)⟩ := by
      rw [Client.conn, Client.phase, hst, ho]
    rw [hconn, hbytes, hcl]
    exact .single (Step.deliver _ _ _ 0 0)

theorem visitEntry_steps (hr : .ready r ∈ all) (hfit : OutputFits (r.env e.2.fd))
    (h : Staging e.2) (hs : e.2.Stored) (hv : visitEntry r round e = .ok v) :
    Steps (Answers all) ⟨{e.2.conn}, 0⟩
      ⟨(v.kept.toList.map fun e => e.2.conn : List _),
        ((endings v.events).map Ending.outcome : List _)⟩ := by
  have hread := readEntry_steps round hr hfit h hs
  cases (visitEntry_ends hv).2 with
  | idle h0 hk he =>
    rw [hk, he]
    exact .refl
  | failed h1 hk he =>
    rw [hk, he]
    exact .single (Step.drop _ 0 0)
  | closing w hz hw hc hk he =>
    rw [hk, he]
    obtain ⟨hstaging, -⟩ := readEntry_pending r round h hz e.1
    exact hread.trans (writeEntry_steps (writeEntry_staging hstaging hw))
  | kept hz hc hk he =>
    rw [hk, he]
    exact hread

end Visits

section Runs

variable {r : Round} {s s' : Server} {new order : List Entry} {answers all : List PollAnswer}

theorem fresh_conn (a : Accepted) (e : Entry) (hf : IsFresh a e) :
    e.2.Stored ∧ e.2.conn = ⟨e.2.peer, [], .receiving⟩ := by
  obtain ⟨old, rfl⟩ := hf
  exact ⟨rfl, rfl⟩

theorem accept_steps (hnew : ∀ e ∈ new, e.2.conn = ⟨e.2.peer, [], .receiving⟩)
    (o : Multiset (Conn Peer Byte)) (d : Multiset (Ended Peer Byte)) :
    Steps (Answers all) ⟨o, d⟩ ⟨o + (new.map fun e => e.2.conn : List _), d⟩ := by
  induction new generalizing o with
  | nil => simpa using (Relation.ReflTransGen.refl : Steps (Answers all) ⟨o, d⟩ ⟨o, d⟩)
  | cons e new ih =>
    have hrest := ih (fun e' he' => hnew e' (List.mem_cons_of_mem _ he')) (e.2.conn ::ₘ o)
    rw [List.map_cons, ← Multiset.cons_coe, Multiset.add_cons, ← Multiset.cons_add]
    refine .head ?_ hrest
    rw [hnew e List.mem_cons_self]
    exact Step.accept _ o d

theorem order_stored (he : RoundEffect r s new order s') (hs : ∀ e ∈ s.entries, e.2.Stored) :
    ∀ e ∈ order, e.2.Stored :=
  he.forall_order hs (fun a e hf => (fresh_conn a e hf).1) fun _ _ hq => hq

theorem round_stored (he : RoundEffect r s new order s') (hs : ∀ e ∈ s.entries, e.2.Stored) :
    ∀ e ∈ s'.entries, e.2.Stored := by
  intro e' hm
  obtain ⟨e, ho, hk⟩ := (mem_left he).mp hm
  obtain ⟨v, hv⟩ := he.visited e ho
  exact visitEntry_stored (order_stored he hs e ho) hv ((keptBy_ok hv).1.symm.trans hk)

theorem round_steps (hr : .ready r ∈ all) (hfit : ∀ fd, OutputFits (r.env fd))
    (he : RoundEffect r s new order s') (hb : Books s) (hs : ∀ e ∈ s.entries, e.2.Stored) :
    Steps (Answers all) s.service s'.service := by
  have hvisit : ∀ e ∈ order, Steps (Answers all) ⟨{e.2.conn}, 0⟩
      ⟨((keptBy r s.round e).toList.map fun e => e.2.conn : List _),
        ((endings (eventsOf r s.round e)).map Ending.outcome : List _)⟩ := by
    intro e ho
    obtain ⟨v, hv⟩ := he.visited e ho
    rw [(keptBy_ok hv).1, (keptBy_ok hv).2]
    exact visitEntry_steps hr (hfit e.2.fd) (round_staging he hb e ho).1
      (order_stored he hs e ho) hv
  have hsweep : (order.map fun e => e.2.conn).Perm
      (s.entries.map (fun e => e.2.conn) ++ new.map fun e => e.2.conn) := by
    have hperm := he.sweep.perm.map fun e : Entry => e.2.conn
    have hpoll : (s.polled r).entries.map (fun e => e.2.conn) =
        s.entries.map fun e => e.2.conn := by
      simp only [List.map_eq_flatMap]
      exact polled_flatMap (fun _ _ => rfl) r s
    rwa [List.map_append, hpoll] at hperm
  have hleft : (order.flatMap fun e => (keptBy r s.round e).toList.map fun e => e.2.conn) =
      s'.entries.map fun e => e.2.conn := by
    rw [he.left, List.filterMap_eq_flatMap_toList, List.map_flatMap]
  have haccept : Steps (Answers all) ⟨(s.entries.map fun e => e.2.conn : List _),
      ((endings s.trace).map Ending.outcome : List _)⟩ _ :=
    accept_steps (fresh_all (fun a _ e hf => (fresh_conn a e hf).2) he.fresh) _ _
  have hrun := Steps.parallel _ _ order hvisit
    ((endings s.trace).map Ending.outcome : List _)
  rw [hleft, Multiset.coe_add, ← List.map_flatMap, ← List.map_append,
    ← (round_endings he hb.complete).2, Multiset.coe_eq_coe.mpr hsweep,
    ← Multiset.coe_add] at hrun
  exact haccept.trans hrun

theorem eventLoop_steps (hsub : answers ⊆ all)
    (hfit : ∀ r, .ready r ∈ all → ∀ fd, OutputFits (r.env fd)) (hb : Books s)
    (hs : ∀ e ∈ s.entries, e.2.Stored) (h : eventLoop s answers = .ok s') :
    Steps (Answers all) s.service s'.service := by
  induction answers generalizing s with
  | nil =>
    cases h
    exact .refl
  | cons a answers ih =>
    obtain ⟨s₁, h1, h2⟩ := Run.run_cons_ok h
    have hlater : answers ⊆ all := List.subset_of_cons_subset hsub
    cases a with
    | eintr =>
      cases h1
      exact ih hlater hb hs h2
    | fatal => cases h1
    | ready r =>
      have hr : .ready r ∈ all := hsub List.mem_cons_self
      obtain ⟨t, new, order, rfl, he⟩ := pollRound_ok hb.clients.pos hb.clients.least h1
      have hsteps := round_steps hr (hfit r hr) he hb hs
      have hst := round_stored he hs
      have hrest := ih (s := { t with round := s.round + 1 }) hlater ((round_books he hb).tick _) hst
        h2
      exact hsteps.trans hrest

theorem drain_steps (hb : Books s) (h : DrainEffect s s.numListeners order s') :
    Steps (Answers all) s.service s'.service ∧ s'.service.conns = 0 := by
  have hstep : ∀ e ∈ order, Steps (Answers all) ⟨{e.2.conn}, 0⟩
      ⟨([] : List (Conn Peer Byte)), ([Ending.outcome ⟨e.2, [], false⟩] : List _)⟩ :=
    fun e _ => .single (Step.drop _ 0 0)
  have hdrop := Steps.parallel (fun _ => []) (fun e => [Ending.outcome ⟨e.2, [], false⟩]) order
    hstep ((endings s.trace).map Ending.outcome : List _)
  have hgone : (order.flatMap fun _ => ([] : List (Conn Peer Byte))) = [] :=
    List.flatMap_eq_nil_iff.mpr fun _ _ => rfl
  have hconns : s'.service.conns = 0 := by
    have hnone : s'.entries = [] := live_of_le (h.listeners ▸ h.done)
    rw [Server.service, hnone]
    rfl
  refine ⟨?_, hconns⟩
  have hservice : s'.service = ⟨0, ((endings s.trace).map Ending.outcome : List _) +
      (order.flatMap fun e => [Ending.outcome ⟨e.2, [], false⟩] : List _)⟩ := by
    rw [← hconns, Multiset.coe_add, Server.service, drain_endings hb.complete h, List.map_append,
      List.map_flatMap]
    rfl
  rw [hgone, Multiset.coe_eq_coe.mpr (h.perm.map fun e => e.2.conn)] at hdrop
  rw [hservice]
  exact hdrop

end Runs

/-- What is known of a request and of the bytes that its peer has sent. -/
structure Processed.Faithful (answers : List PollAnswer) (q : Processed) : Prop where
  outside : ∃ r fd, .ready r ∈ answers ∧ q.env = r.env fd
  unstaged : q.client.outBuf = none
  found : ∃ k, strnstr q.buf headerEnd q.buf.length = some k ∧ q.client.headerLen = k + 4
  received : q.done.received = q.buf

section Requests

variable {s : Server} {answers : List PollAnswer} {q : Processed}

theorem processedBy_faithful {r : Round} {round : ℕ} {e : Entry} (hr : .ready r ∈ answers)
    (h : Staging e.2) (hs : e.2.Stored) (hq : processedBy r round e = some q) :
    q.Faithful answers := by
  simp only [processedBy] at hq
  split_ifs at hq with hin
  obtain ⟨⟨c, buf⟩, hreq, rfl⟩ := Option.map_eq_some_iff.mp hq
  have hnot : e.2.state ≠ .sendingHeader := by
    rw [hin.2.2]
    decide
  have hbuf : (recvLoop e.2 (r.recvs e.2.fd)).1.received = buf := requestIn_received hreq
  have hlen : (recvLoop e.2 (r.recvs e.2.fd)).1.received.length =
      (recvLoop e.2 (r.recvs e.2.fd)).1.inputLength := (recvLoop_received hs _).1
  have hnone := (requestIn_frame hreq).2.trans (h.unstaged hnot)
  obtain ⟨k, hk, rfl⟩ := requestIn_found hreq
  refine ⟨⟨r, e.2.fd, hr, rfl⟩, hnone, ⟨k, ?_, rfl⟩, ?_⟩
  · rw [← hlen, hbuf] at hk
    exact hk
  · change (respond (r.env e.2.fd) round _ buf).client.received = buf
    rw [Client.received, respond_frame.eq]
    exact hbuf

theorem processedRun_faithful {pfds : ℕ → PollFd} {clients : ℕ → Client} {v4 v6 : Option ℕ}
    {s₀ : Server} (h0 : setup pfds clients v4 v6 = .ok s₀) :
    ∀ q ∈ processedRun s₀ answers, q.Faithful answers := by
  refine processedRun_entrywise
    (Q := fun e => (Staging e.2 ∧ e.2.state ≠ .closing) ∧ e.2.Stored) ?_ ?_ ?_ ?_
    (setup_entrywise h0)
  · intro a e hf
    obtain ⟨old, rfl⟩ := hf
    exact ⟨initClient_staging _ _ _, rfl⟩
  · exact fun e m hq => hq
  · intro r round e v e' hq hv hk
    exact ⟨(visitEntry_account hq.1.1 hq.1.2 hv).kept e' hk,
      visitEntry_stored hq.2 hv hk⟩
  · intro r hr round e q hq hp
    exact processedBy_faithful hr hq.1.1 hq.2 hp

/-- Behind an ending with a response stands a request. -/
theorem ended_faithful {pfds : ℕ → PollFd} {clients : ℕ → Client} {v4 v6 : Option ℕ}
    {s₀ s : Server} (h0 : setup pfds clients v4 v6 = .ok s₀) (h : eventLoop s₀ answers = .ok s)
    {x : Ending} (hx : x ∈ endings s.trace) (hne : x.sent ≠ []) :
    ∃ q ∈ processedRun s₀ answers, q.Faithful answers ∧ x.client.received = q.buf ∧
      q.done = x.client.asStaged ∧ q.done.outBuf = some x.sent := by
  obtain ⟨hout, q, hq, hdone⟩ := (ended_processed h0 h hx).resolve_left hne
  have hf : q.Faithful answers := processedRun_faithful h0 q hq
  refine ⟨q, hq, hf, ?_, hdone, ?_⟩
  · rw [← hf.received, hdone]
    rfl
  · rw [hdone]
    exact hout

theorem sending_processed {pfds : ℕ → PollFd} {clients : ℕ → Client} {v4 v6 : Option ℕ}
    {s₀ s : Server} (h0 : setup pfds clients v4 v6 = .ok s₀) (h : eventLoop s₀ answers = .ok s)
    {e : Entry} (he : e ∈ s.entries) (hst : e.2.state = .sendingHeader) :
    ∃ q ∈ processedRun s₀ answers, q.Faithful answers ∧ q.done = e.2 ∧ q.buf = e.2.received := by
  obtain ⟨hb, hperm⟩ := eventLoop_books (setup_books h0) h
  rw [setup_trace h0, setup_empty h0] at hperm
  have hpending : e.2 ∈ s.entries.flatMap pendingResponse := by
    refine List.mem_flatMap.mpr ⟨e, he, ?_⟩
    have hone : pendingResponse (e.1, e.2) = [e.2] :=
      pendingResponse_of_sending (hb.clients.all e he).1 hst
    exact hone ▸ List.mem_singleton.mpr rfl
  obtain ⟨q, hq, hdone⟩ :=
    List.mem_map.mp (hperm.mem_iff.mpr (List.mem_append_right _ hpending))
  have hf : q.Faithful answers := processedRun_faithful h0 q hq
  exact ⟨q, hq, hf, hdone, hdone ▸ hf.received.symm⟩

end Requests

/-- Every run of the event loop, and the shutdown behind it, is a run of the
service, so whatever a peer has been sent, or is about to be, is the response to
what that peer has sent. -/
theorem eventLoop_refines_service {pfds : ℕ → PollFd} {clients : ℕ → Client}
    {v4 v6 : Option ℕ} {s₀ s : Server} {answers : List PollAnswer}
    (h0 : setup pfds clients v4 v6 = .ok s₀) (h : eventLoop s₀ answers = .ok s)
    (hfit : ∀ r, .ready r ∈ answers → ∀ fd, OutputFits (r.env fd)) :
    Steps (Answers answers) ⟨0, 0⟩ s.service ∧
    (∀ x ∈ endings s.trace, x.sent = [] ∨
      Answers answers x.client.peer x.client.received (some x.sent)) ∧
    (∀ e ∈ s.entries, e.2.state = .sendingHeader →
      Answers answers e.2.peer e.2.received e.2.outBuf) ∧
    ∀ fuel s', shutdownLoop fuel s s.numListeners = .ok s' →
      Steps (Answers answers) s.service s'.service ∧ s'.service.conns = 0 := by
  have hempty : s₀.service = ⟨0, 0⟩ := by
    rw [Server.service, setup_empty h0, setup_trace h0]
    rfl
  have hsteps : Steps (Answers answers) ⟨0, 0⟩ s.service := by
    rw [← hempty]
    exact eventLoop_steps (List.Subset.refl _) hfit (setup_books h0) (by simp [setup_empty h0]) h
  have hsound := sound_start.steps hsteps
  have hb := (eventLoop_books (setup_books h0) h).1
  refine ⟨hsteps, fun x hx => ?_, fun e he hst => ?_, fun fuel s' hs => ?_⟩
  · exact hsound.ended x.outcome (List.mem_map_of_mem hx)
  · have hmem : e.2.conn ∈ s.entries.map fun e => e.2.conn := List.mem_map.mpr ⟨e, he, rfl⟩
    refine hsound.conns e.2.conn hmem e.2.outBuf ?_
    change e.2.phase = _
    rw [Client.phase, hst]
  · obtain ⟨order, hd⟩ := shutdownLoop_drain hb.clients.pos hs
    exact drain_steps hb hd

theorem eventLoop_refines_service_oneOfTwo :
    ∃ s, eventLoop startServer (oneOfTwo listingEnv getRoot) = .ok s ∧
      ∃ x ∈ endings s.trace, x.sent ≠ [] ∧ x.client.peer.1 = 7 ∧
        Answers (oneOfTwo listingEnv getRoot) x.client.peer x.client.received (some x.sent) := by
  have hfit : ∀ r, .ready r ∈ oneOfTwo listingEnv getRoot → ∀ fd, OutputFits (r.env fd) := by
    intro r hr fd got hgot
    simp only [oneOfTwo, List.mem_cons, List.not_mem_nil, or_false, PollAnswer.ready.injEq] at hr
    rcases hr with rfl | rfl | rfl
    all_goals
      cases hgot
      decide
  obtain ⟨s, hs, ht⟩ := Run.arrives_iff.mp (show Run.arrives
    (fun s : Server => decide (∃ x ∈ endings s.trace, x.sent ≠ [] ∧ x.client.peer.1 = 7))
    (eventLoop startServer (oneOfTwo listingEnv getRoot)) = true by decide +kernel)
  obtain ⟨x, hx, hne, hfd⟩ := of_decide_eq_true ht
  have hans := (eventLoop_refines_service setup_startServer hs hfit).2.1 x hx
  exact ⟨s, hs, x, hx, hne, hfd, hans.resolve_left hne⟩

end SimpleServer
