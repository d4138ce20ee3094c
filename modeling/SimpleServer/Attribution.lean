import SimpleServer.Waiting
import SimpleServer.OutsideCalls

/-!
# Requests are laid at the right door

The record of a connection moves from slot to slot, and descriptors are used
again. Whenever a request is processed, its bytes are still those that were
heard on its descriptor since `accept` last handed it out, and the address that
goes into the log and to a script is the one that this `accept` reported.
-/

namespace SimpleServer

open CString FileTree SlotArray

def noteAddr (fd : ℕ) (s : Server) : PollAnswer → Option Bytes → Option Bytes
  -- what `accept` reports in this round replaces what was known
  | .ready r, addr => ((view Accepted.fd (registeredFrom r (s.polled r) 0) fd).map
      fun a => addrText a.addr).or addr
  | _, addr => addr

def peerAddr (fd : ℕ) (s : Server) (answers : List PollAnswer) : Option Bytes :=
  Run.tally Server.step (noteAddr fd) none s answers

section Steps

variable {r : Round} {s s' : Server} {a : PollAnswer} {fd : ℕ} {e : Entry} {addr : Option Bytes}

structure Bears (fd : ℕ) (s : Server) (addr : Option Bytes) : Prop where
  inv : s.Inv
  kept : ∀ e, s.record fd = some e → some e.2.clientAddr = addr

theorem registered_connected (hs : s.Inv) (hk : FreshFds r s) (hr : s.record fd = some e) :
    view Accepted.fd (registeredFrom r (s.polled r) 0) fd = none := by
  obtain ⟨hmem, hfd⟩ := (record_eq_some hs).mp hr
  rw [view_eq_none]
  intro hnew
  have hold : fd ∈ s.entries.map Entry.fd := hfd ▸ List.mem_map_of_mem hmem
  exact (List.nodup_append.mp hk).2.2 fd hold fd hnew rfl

theorem Bears.step (h : Bears fd s addr) (hk : NewFdsFresh s a) (hstep : s.step a = .ok s') :
    Bears fd s' (noteAddr fd s a addr) := by
  cases a with
  | eintr =>
    cases hstep
    exact h
  | fatal => cases hstep
  | ready r =>
    refine ⟨step_inv (a := .ready r) h.inv hk hstep, fun e' hr' => ?_⟩
    cases hrec : s.record fd with
    | none =>
      obtain ⟨b, hb, hf⟩ := record_fresh h.inv hk hrec hstep hr'
      obtain ⟨old, rfl⟩ := hf
      have hfd : b.fd = fd :=
        ((record_eq_some (step_inv (a := .ready r) h.inv hk hstep)).mp hr').2
      have hview : view Accepted.fd (registeredFrom r (s.polled r) 0) fd = some b :=
        (view_eq_some (List.nodup_append.mp hk).2.1).mpr ⟨hb, hfd⟩
      rw [noteAddr, hview]
      rfl
    | some e =>
      obtain ⟨m, v, hm, hv, hrec', -⟩ := client_step h.inv hk hrec hstep
      rw [noteAddr, registered_connected h.inv hk hrec, Option.map_none, Option.none_or,
        ← h.kept e hrec]
      rcases visitEntry_kept hv (hrec'.symm.trans hr') with ⟨rfl, -⟩ | ⟨-, -, rfl⟩
      · rfl
      · exact congrArg some readEntry_addr

end Steps

section Runs

variable {s : Server} {answers : List PollAnswer} {q : Processed}

theorem processedRun_split (hs : Entrywise (fun _ => True) s) (hq : q ∈ processedRun s answers) :
    ∃ pre r post t, answers = pre ++ .ready r :: post ∧ eventLoop s pre = .ok t ∧
      ∃ e ∈ (t.polled r).entries, processedBy r t.round e = some q := by
  induction answers generalizing s with
  | nil => cases hq
  | cons a answers ih =>
    cases hstep : s.step a with
    | error x =>
      simp only [processedRun, hstep] at hq
      cases hq
    | ok s' =>
      have hnext : ∀ {s' : Server}, s.step a = .ok s' → Entrywise (fun _ => True) s' →
          q ∈ processedRun s' answers → ∃ pre r post t, a :: answers = pre ++ .ready r :: post ∧
            eventLoop s pre = .ok t ∧
            ∃ e ∈ (t.polled r).entries, processedBy r t.round e = some q := by
        intro s' hok he hmem
        obtain ⟨pre, r, post, t, rfl, hpre, hrest⟩ := ih he hmem
        exact ⟨a :: pre, r, post, t, rfl, (Run.run_cons hok).trans hpre, hrest⟩
      simp only [processedRun, hstep, List.mem_append] at hq
      cases a with
      | eintr =>
        cases hstep
        exact hnext rfl hs (hq.resolve_left List.not_mem_nil)
      | fatal => cases hstep
      | ready r =>
        obtain ⟨t, new, order, rfl, he⟩ := pollRound_ok hs.pos hs.least hstep
        rcases hq with hq | hq
        · change q ∈ (examined (t.trace.drop s.trace.length)).filterMap _ at hq
          rw [round_processed he] at hq
          obtain ⟨e, ho, hq⟩ := List.mem_filterMap.mp hq
          refine ⟨[], r, answers, s, rfl, rfl, e, ?_, hq⟩
          refine ((mem_order he).mp ho).resolve_right fun hm => ?_
          rw [processedBy_idle (fresh_revents he.fresh e hm)] at hq
          cases hq
        · have hafter := he.entrywise hs (fun _ _ _ _ => trivial) (fun _ _ _ => trivial)
            fun _ _ _ _ _ _ _ => trivial
          exact hnext hstep ⟨hafter.pos, hafter.least, hafter.all⟩ hq

theorem processedBy_round {r : Round} {round : ℕ} {e : Entry}
    (hq : processedBy r round e = some q) : q.round = round := by
  simp only [processedBy] at hq
  split_ifs at hq
  obtain ⟨p, -, rfl⟩ := Option.map_eq_some_iff.mp hq
  rfl

theorem processedBy_heard {r : Round} {round : ℕ} {e : Entry} {got : Bytes} (hs : e.2.Stored)
    (h : Stands e got) (hq : processedBy r round e = some q) :
    q.buf = got ++ heard (r.recvs e.2.fd) ∧ q.client.clientAddr = e.2.clientAddr ∧
      q.client.fd = e.2.fd := by
  simp only [processedBy] at hq
  split_ifs at hq with hin
  obtain ⟨⟨c, buf⟩, hreq, rfl⟩ := Option.map_eq_some_iff.mp hq
  obtain ⟨hgot, hlen⟩ : e.2.received = got ∧ got.length ≤ maxRequestSize := by
    cases h with
    | asking _ _ hg hl _ => exact ⟨hg, hl⟩
    | answered hx => cases hin.2.2.symm.trans hx
    | stuck hx => cases hin.2.2.symm.trans hx
  have hd := recvLoop_drained (r.recvs e.2.fd) hin.2.2 hs (by rw [← hs, hgot]; exact hlen)
  obtain ⟨hflag, k, -, hc, hbuf⟩ := requestIn_complete hreq
  have hfd := congrArg Client.fd (recvLoop_frame e.2 (r.recvs e.2.fd)).eq
  refine ⟨?_, (requestIn_frame hreq).1, (congrArg Client.fd hc).trans hfd⟩
  generalize recvLoop e.2 (r.recvs e.2.fd) = d at hd hflag hbuf
  cases hd with
  | all c' _ hrec _ => rw [← hbuf, hrec, hgot]
  | tooLong c' _ _ _ => cases hflag
  | lost c' _ => cases hflag

theorem eventLoop_bears {pfds : ℕ → PollFd} {clients : ℕ → Client} {v4 v6 : Option ℕ}
    {s₀ : Server} (h0 : setup pfds clients v4 v6 = .ok s₀)
    (hf : Run.Along Server.step NewFdsFresh s₀ answers) (h : eventLoop s₀ answers = .ok s)
    (fd : ℕ) : Bears fd s (peerAddr fd s₀ answers) := by
  have hstart : Bears fd s₀ none := by
    refine ⟨setup_inv h0, fun x hx => ?_⟩
    have hmem := ((record_eq_some (setup_inv h0)).mp hx).1
    rw [setup_entries h0] at hmem
    cases hmem
  exact Run.invariant_tally (fun _ _ _ _ hi hk hs => hi.step hk hs) hstart hf h

end Runs

/-- What a request owes to its peer: its bytes are those heard before and now, and
`addr` is the address that it is logged under and that its script is told. -/
structure Processed.Attributed (q : Processed) (before : Bytes) (now : List RecvResult)
    (addr : Bytes) : Prop where
  bytes : q.buf = before ++ heard now
  log : ∃ rest, q.logText = addr ++ ascii " " ++ rest
  child : ∀ call, .run call ∈ q.asks → call.remoteAddr = addr

/-- Every request is made of what its own peer has sent since it was accepted,
and is logged, and handed to a script, under the address of that peer. -/
theorem requests_attributed {pfds : ℕ → PollFd} {clients : ℕ → Client} {v4 v6 : Option ℕ}
    {s₀ : Server} {answers : List PollAnswer} (h0 : setup pfds clients v4 v6 = .ok s₀)
    (hf : Run.Along Server.step NewFdsFresh s₀ answers) :
    ∀ q ∈ processedRun s₀ answers, ∃ pre r post t addr, answers = pre ++ .ready r :: post ∧
      eventLoop s₀ pre = .ok t ∧ q.round = t.round ∧ peerAddr q.client.fd s₀ pre = some addr ∧
      q.Attributed (heardFrom q.client.fd s₀ pre) (r.recvs q.client.fd) addr := by
  intro q hq
  obtain ⟨pre, r, post, t, rfl, ht, e, he, hproc⟩ := processedRun_split (setup_entrywise h0) hq
  obtain ⟨y, hy, m, rfl⟩ := polled_entry he
  have hfollow := eventLoop_follows h0 hf.left ht y.2.fd
  have hbear := eventLoop_bears h0 hf.left ht y.2.fd
  have hrec : t.record y.2.fd = some y := (record_eq_some hfollow.inv).mpr ⟨hy, rfl⟩
  have hkept := hfollow.kept y hrec
  have hstored : (({ y.1 with revents := m }, y.2) : Entry).2.Stored := hkept.stored
  obtain ⟨hbuf, haddr, hfd⟩ := processedBy_heard hstored (hkept.stands.polled m) hproc
  rw [hfd]
  refine ⟨pre, r, post, t, q.client.clientAddr, rfl, ht, processedBy_round hproc, ?_, hbuf,
    ⟨_, List.append_assoc _ _ _⟩, fun call hcall => ?_⟩
  · rw [haddr]
    exact (hbear.kept y hrec).symm
  · obtain ⟨target, hd⟩ := q.describes hcall
    exact hd.peer

def peer (fd : ℕ) (addr : Bytes) (h : addr.length < inet6AddrStrLen) (h0 : 0 ∉ addr) :
    AcceptResult := .conn ⟨fd, true, ⟨true, true⟩, some ⟨addr, h, h0⟩⟩

def reusedDescriptor : List PollAnswer :=
  [.ready { acceptRound [] with
      accepts := fun _ => [peer 7 (ascii "10.0.0.2") (by decide) (by decide),
        peer 8 (ascii "10.0.0.3") (by decide) (by decide)] },
    .ready { readRound scriptEnv (piece (ascii "GET /cgi-bin/a") (by decide) (by decide)) with
      revents := fun i => if i = 1 then pollHup else if i = 2 then pollIn else 0 },
    .ready { acceptRound [] with
      accepts := fun _ => [peer 7 (ascii "10.0.0.4") (by decide) (by decide)] },
    .ready { readRound scriptEnv getRoot with
      recvs := fun fd => if fd = 7 then getScript else
        piece (ascii " HTTP/1.0" ++ headerEnd) (by decide) (by decide) }]

theorem requests_attributed_reusedDescriptor :
    ∃ q ∈ processedRun startServer reusedDescriptor, q.client.fd = 7 ∧
      q.Attributed [] getScript (ascii "10.0.0.4") := by
  have hf : Run.Along Server.step NewFdsFresh startServer reusedDescriptor := by decide +kernel
  obtain ⟨q, hq, hfd, hround⟩ : ∃ q ∈ processedRun startServer reusedDescriptor,
      q.client.fd = 7 ∧ q.round = 3 := by decide +kernel
  obtain ⟨pre, r, post, t, addr, hans, ht, hr, haddr, hatt⟩ :=
    requests_attributed setup_startServer hf q hq
  have htake : pre = reusedDescriptor.take pre.length := by rw [hans, List.take_left]
  have hlt : pre.length < 4 := by
    have hlen := congrArg List.length hans
    simp only [List.length_append, List.length_cons] at hlen
    change 4 = _ at hlen
    omega
  -- Only the last of the four rounds is the round of this request.
  have hlast : ∀ k < 4, Run.arrives (fun t : Server => decide (t.round = 3))
      (eventLoop startServer (reusedDescriptor.take k)) = true → k = 3 := by decide +kernel
  have hpre : pre = reusedDescriptor.take 3 := by
    have h3 := hlast pre.length hlt (by rw [← htake, ht]; exact decide_eq_true (hr ▸ hround))
    rwa [h3] at htake
  subst hpre
  have hdrop := List.append_cancel_left
    ((List.take_append_drop 3 reusedDescriptor).trans hans)
  rw [hfd] at haddr hatt
  have hthird : peerAddr 7 startServer (reusedDescriptor.take 3) = some (ascii "10.0.0.4") := by
    decide +kernel
  have hsilent : heardFrom 7 startServer (reusedDescriptor.take 3) = [] := by decide +kernel
  cases hthird.symm.trans haddr
  rw [hsilent] at hatt
  cases hdrop
  exact ⟨q, hq, hfd, hatt⟩

end SimpleServer
