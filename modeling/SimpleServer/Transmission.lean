import SimpleServer.FaultIsolation

/-!
# Every byte of a response once and in order

What the kernel has accepted for a connection is read off the trace: `Link`
collects the bytes of its `send` calls until the descriptor is closed, and the
replay fails at a byte that comes behind the shutdown of the send side. The
moments of a call of `do_write` are the states behind each of its statements,
also in a call that ends the process later on. At all of them the accepted
bytes are the first `output_sent` bytes of `out_buf`.
-/

namespace SimpleServer

open CString FileTree SlotArray

structure Link where
  accepted : Bytes
  shut : Bool
  deriving DecidableEq, Repr

def Link.fresh : Link := ⟨[], false⟩

/-- The connection that an event is about. -/
def Event.link : Event → Option ℕ
  | .sent fd _ => some fd
  | .shutdown fd => some fd
  | .close c => some c.fd
  | _ => none

def Link.post (fd : ℕ) (l : Link) (ev : Event) : Option Link :=
  if ev.link ≠ some fd then some l
  else match ev with
    | .sent _ bytes => if l.shut then none else some { l with accepted := l.accepted ++ bytes }
    | .shutdown _ => some { l with shut := true }
    | .close _ => some .fresh
    | _ => some l

def Link.replay (fd : ℕ) (l : Link) (ev : List Event) : Option Link := ev.foldlM (Link.post fd) l

/-- The connection on `fd` at the end of a trace; `none` if a byte has been
sent on it behind its shutdown. -/
def link (fd : ℕ) (trace : List Event) : Option Link := Link.replay fd .fresh trace

/-- The states behind the statements of the `send` loop. -/
inductive SendMoment : Client → List SendResult → WriteOutcome → Prop
  | start (c : Client) (rs : List SendResult) : SendMoment c rs ⟨c, []⟩
  | sent {c : Client} {a : SendResult} {rs : List SendResult} {o : WriteOutcome} :
      c.outputSent < c.outputLength → a.count (c.outputLength - c.outputSent) ≠ 0 →
      SendMoment (c.advance (a.count (c.outputLength - c.outputSent))) rs o →
      SendMoment c (a :: rs) ⟨o.client,
        .sent c.fd ((unsent c).take (a.count (c.outputLength - c.outputSent))) :: o.events⟩
  | shutdown {c : Client} (rs : List SendResult) : c.outputLength ≤ c.outputSent →
      SendMoment c rs ⟨c, [.shutdown c.fd]⟩
  | done {c : Client} (rs : List SendResult) : c.outputLength ≤ c.outputSent →
      SendMoment c rs (finishWrite c)

inductive WriteMoment (rs : List SendResult) (c : Client) : WriteOutcome → Prop
  | start : WriteMoment rs c ⟨c, []⟩
  | empty : c.outBuf = none ∨ c.outputLength = 0 →
      WriteMoment rs c ⟨{ c with state := .closing }, []⟩
  | loop {o : WriteOutcome} : ¬ (c.outBuf = none ∨ c.outputLength = 0) → SendMoment c rs o →
      WriteMoment rs c o

/-- The moments of one call of `do_write` after the other. -/
inductive CallMoment : List (List SendResult) → Client → WriteOutcome → Prop
  | now {rs : List SendResult} {calls : List (List SendResult)} {c : Client} {o : WriteOutcome} :
      WriteMoment rs c o → CallMoment (rs :: calls) c o
  | later {rs : List SendResult} {calls : List (List SendResult)} {c : Client}
      {o o' : WriteOutcome} : doWrite rs c = .ok o → CallMoment calls o.client o' →
      CallMoment (rs :: calls) c ⟨o'.client, o.events ++ o'.events⟩

/-- The accepted bytes are those of `out_buf` before `output_sent`; a send side
that has been shut down, or a client that has been moved to `CLOSING`, has
nothing left to send. -/
structure Exact (l : Link) (c : Client) : Prop where
  accepted : l.accepted = (c.outBuf.getD []).take c.outputSent
  bound : c.outputSent ≤ c.outputLength
  shut : l.shut = true → c.outputSent = c.outputLength
  closing : c.state = .closing → c.outBuf = none ∨ c.outputSent = c.outputLength

section Link

variable {fd : ℕ} {l l' : Link} {x : Event} {ev ev' : List Event}

theorem Link.post_other (h : x.link ≠ some fd) : l.post fd x = some l := if_pos h

theorem Link.post_sent (bytes : Bytes) (h : l.shut = false) :
    l.post fd (.sent fd bytes) = some { l with accepted := l.accepted ++ bytes } := by
  simp [Link.post, Event.link, h]

theorem Link.post_shutdown : l.post fd (.shutdown fd) = some { l with shut := true } := by
  simp [Link.post, Event.link]

theorem Link.post_close {c : Client} (h : c.fd = fd) : l.post fd (.close c) = some .fresh := by
  simp [Link.post, Event.link, h]

theorem Link.replay_cons_some (h : l.post fd x = some l') :
    l.replay fd (x :: ev) = l'.replay fd ev := by
  rw [Link.replay, List.foldlM_cons, h]
  rfl

theorem Link.replay_append_some (h : l.replay fd ev = some l') :
    l.replay fd (ev ++ ev') = l'.replay fd ev' := by
  rw [Link.replay] at h
  rw [Link.replay, List.foldlM_append, h]
  rfl

theorem Link.replay_others (h : ∀ x ∈ ev, x.link ≠ some fd) : l.replay fd ev = some l := by
  induction ev with
  | nil => rfl
  | cons x ev ih =>
    rw [Link.replay_cons_some (Link.post_other (h x List.mem_cons_self))]
    exact ih fun y hy => h y (List.mem_cons_of_mem _ hy)

theorem link_append_some {t : List Event} (h : link fd t = some .fresh) :
    link fd (t ++ ev) = Link.replay fd .fresh ev := Link.replay_append_some h

end Link

section Calls

variable {c : Client} {rs : List SendResult} {o : WriteOutcome} {l : Link}

theorem take_unsent {out : Bytes} {sent len n : ℕ} (h : sent + n ≤ len) :
    out.take sent ++ (((out.take len).drop sent).take n) = out.take (sent + n) := by
  rw [List.take_add, List.drop_take, List.take_take, Nat.min_eq_left (by omega)]

theorem Exact.advance {n : ℕ} (h : Exact l c) (hn : n ≤ c.outputLength - c.outputSent)
    (hlt : c.outputSent < c.outputLength) :
    Exact { l with accepted := l.accepted ++ (unsent c).take n } (c.advance n) := by
  refine ⟨?_, ?_, ?_, ?_⟩
  · rw [h.accepted]
    exact take_unsent (by omega)
  · change c.outputSent + n ≤ c.outputLength
    omega
  · intro hs
    have hall := h.shut hs
    omega
  · intro hst
    rcases h.closing hst with hb | hall
    · exact Or.inl hb
    · omega

theorem Exact.finish (h : Exact l c) (hge : c.outputLength ≤ c.outputSent) :
    Exact { l with shut := true } c ∧ Exact { l with shut := true } (finishWrite c).client := by
  have hall : c.outputSent = c.outputLength := Nat.le_antisymm h.bound hge
  exact ⟨⟨h.accepted, h.bound, fun _ => hall, h.closing⟩,
    h.accepted, h.bound, fun _ => hall, fun _ => Or.inr hall⟩

theorem SendMoment.exact (h : SendMoment c rs o) (he : Exact l c) :
    ∃ l', l.replay c.fd o.events = some l' ∧ Exact l' o.client := by
  -- over the answers to the `send` calls: each moves `output_sent` and the link together
  induction h generalizing l with
  | start c rs => exact ⟨l, rfl, he⟩
  | @sent c a rs o hlt hn _ ih =>
    have hopen : l.shut = false := by
      by_contra hs
      have hall := he.shut (by simpa using hs)
      omega
    obtain ⟨l', hl', he'⟩ := ih (he.advance (a.count_le _) hlt)
    refine ⟨l', ?_, he'⟩
    rw [Link.replay_cons_some (Link.post_sent _ hopen)]
    exact hl'
  | shutdown rs hge =>
    exact ⟨_, Link.replay_cons_some Link.post_shutdown, (he.finish hge).1⟩
  | done rs hge =>
    exact ⟨_, Link.replay_cons_some Link.post_shutdown, (he.finish hge).2⟩

theorem SendMoment.frame (h : SendMoment c rs o) :
    o.client = { c with outputSent := o.client.outputSent, state := o.client.state } := by
  induction h with
  | sent _ _ _ ih => exact ih
  | _ => rfl

theorem SendMoment.events (h : SendMoment c rs o) : ∀ x ∈ o.events, x.link = some c.fd := by
  induction h with
  | start c rs => simp
  | sent _ _ _ ih =>
    intro x hx
    rcases List.mem_cons.mp hx with rfl | hx
    · rfl
    · exact ih x hx
  | shutdown rs hge => simp [Event.link]
  | done rs hge => simp [finishWrite, Event.link]

theorem sendLoop_moment (h : sendLoop c rs = .ok o) : SendMoment c rs o :=
  sendLoop_induct (fun _ rs hge => .done rs hge) (fun _ _ _ _ hlt hn hm => .sent hlt hn hm) h

theorem doWrite_moment (h : doWrite rs c = .ok o) : WriteMoment rs c o := by
  by_cases hb : c.outBuf = none ∨ c.outputLength = 0
  · rw [doWrite, if_pos hb] at h
    cases h
    exact .empty hb
  · rw [doWrite, if_neg hb] at h
    exact .loop hb (sendLoop_moment h)

theorem WriteMoment.exact (h : WriteMoment rs c o) (he : Exact l c) :
    ∃ l', l.replay c.fd o.events = some l' ∧ Exact l' o.client := by
  cases h with
  | start => exact ⟨l, rfl, he⟩
  | empty hb =>
    refine ⟨l, rfl, he.accepted, he.bound, he.shut, fun _ => ?_⟩
    rcases hb with hb | hz
    · exact Or.inl hb
    · have hle := he.bound
      refine Or.inr ?_
      change c.outputSent = c.outputLength
      omega
  | loop _ hs => exact hs.exact he

theorem WriteMoment.frame (h : WriteMoment rs c o) :
    o.client = { c with outputSent := o.client.outputSent, state := o.client.state } := by
  cases h with
  | loop _ hs => exact hs.frame
  | _ => rfl

theorem WriteMoment.events (h : WriteMoment rs c o) : ∀ x ∈ o.events, x.link = some c.fd := by
  cases h with
  | loop _ hs => exact hs.events
  | _ => simp

theorem CallMoment.exact {calls : List (List SendResult)} (h : CallMoment calls c o)
    (he : Exact l c) : (∃ l', l.replay c.fd o.events = some l' ∧ Exact l' o.client) ∧
      o.client = { c with outputSent := o.client.outputSent, state := o.client.state } := by
  induction h generalizing l with
  | now hw => exact ⟨hw.exact he, hw.frame⟩
  | later hok _ ih =>
    have hw := doWrite_moment hok
    have hfd := congrArg Client.fd hw.frame
    obtain ⟨l₁, h1, he₁⟩ := hw.exact he
    obtain ⟨⟨l₂, h2, he₂⟩, hfr⟩ := ih he₁
    refine ⟨⟨l₂, ?_, he₂⟩, ?_⟩
    · rw [Link.replay_append_some h1]
      rw [hfd] at h2
      exact h2
    · rw [hfr, hw.frame]

end Calls

/-- A client between two iterations of the `for` loop. -/
structure Quiet (e : Entry) : Prop where
  nothing : e.2.outputSent = 0
  stays : e.2.state ≠ .closing
  unstaged : e.2.state = .reading → e.2.outBuf = none

/-- No client is in the middle of its response. -/
structure AllQuiet (s : Server) : Prop where
  clients : ∀ e ∈ s.entries, Quiet e
  links : ∀ fd, link fd s.trace = some .fresh

section Visits

variable {r : Round} {round : ℕ} {e : Entry} {v : Visit}

theorem exact_fresh {c : Client} (h0 : c.outputSent = 0)
    (hc : c.state = .closing → c.outBuf = none) : Exact .fresh c := by
  refine ⟨?_, ?_, (fun h => by cases h), fun h => Or.inl (hc h)⟩
  · rw [h0]
    rfl
  · rw [h0]
    exact Nat.zero_le _

theorem Quiet.exact (h : Quiet e) : Exact .fresh e.2 :=
  exact_fresh h.nothing fun hc => absurd hc h.stays

theorem readEntry_quiet (h : Quiet e) : (readEntry r round e).client.outputSent = 0 ∧
    ((readEntry r round e).client.state = .reading ∨
      (readEntry r round e).client.state = .closing →
        (readEntry r round e).client.outBuf = none) := by
  by_cases hg : e.1.revents &&& pollIn ≠ 0 ∧ e.2.state = .reading
  · rw [readEntry, if_pos hg]
    have hf := recvLoop_frame e.2 (r.recvs e.2.fd)
    rcases doRead_cases (r.env e.2.fd) round (r.recvs e.2.fd) e.2 e.1 with
      ⟨hr, -⟩ | ⟨buf, k, -, -, -, -, hr⟩
    · rw [hr]
      refine ⟨(congrArg Client.outputSent hf.eq).trans h.nothing, fun _ => ?_⟩
      exact (congrArg Client.outBuf hf.eq).trans (h.unstaged hg.2)
    · rw [hr]
      refine ⟨?_, fun hst => ?_⟩
      · change (respond _ round _ buf).client.outputSent = 0
        rw [respond_frame.eq, hf.eq]
        exact h.nothing
      · rcases hst with hst | hst <;> cases hst
  · rw [readEntry, if_neg hg]
    refine ⟨h.nothing, fun hst => ?_⟩
    rcases hst with hst | hst
    · exact h.unstaged hst
    · exact absurd hst h.stays

theorem readEntry_exact (h : Quiet e) : Exact .fresh (readEntry r round e).client :=
  exact_fresh (readEntry_quiet h).1 fun hc => (readEntry_quiet h).2 (Or.inr hc)

theorem readEntry_links : ∀ x ∈ (readEntry r round e).events, x.link = none := by
  intro x hx
  rcases readEntry_events x hx with hs | ⟨line, rfl⟩
  · cases x <;> first | rfl | cases hs
  · rfl

theorem replay_read {fd : ℕ} {l : Link} :
    l.replay fd (.visit e.1 e.2 :: (readEntry r round e).events) = some l := by
  apply Link.replay_others
  intro x hx
  rcases List.mem_cons.mp hx with rfl | hx
  · intro h
    cases h
  · rw [readEntry_links x hx]
    intro h
    cases h

theorem replay_close {c : Client} {fd : ℕ} {l : Link} :
    l.replay fd (closeEvents c) = some (if c.fd = fd then .fresh else l) := by
  have hfile : ∀ x ∈ (closeEvents c).tail, x.link ≠ some fd := by
    rw [closeEvents]
    cases c.filePtr <;> simp [Event.link]
  by_cases hfd : c.fd = fd
  · rw [if_pos hfd, closeEvents, Link.replay_cons_some (Link.post_close hfd)]
    exact Link.replay_others hfile
  · have hother : (Event.close c).link ≠ some fd := fun h => hfd (Option.some.inj h)
    rw [if_neg hfd, closeEvents, Link.replay_cons_some (Link.post_other hother)]
    exact Link.replay_others hfile

theorem writeEntry_moment {revents : PollMask} {c : Client} {w : WriteOutcome}
    (h : writeEntry r revents c = .ok w) : WriteMoment (r.sends c.fd) c w := by
  simp only [writeEntry] at h
  split_ifs at h
  · exact doWrite_moment h
  · cases h
    exact .start

/-- A visit that does not end the process leaves no connection in the middle
of its response: what it sends, it sends whole, and closes. -/
theorem visitEntry_links (hq : Quiet e) (h : visitEntry r round e = .ok v) (fd : ℕ) :
    Link.replay fd .fresh v.events = some .fresh := by
  cases visitEntry_cases h with
  | idle h0 => rfl
  | failed h0 h1 =>
    have hv : (Event.visit e.1 e.2).link ≠ some fd := fun h => by cases h
    rw [Link.replay_cons_some (Link.post_other hv), replay_close, ite_self]
  | closing w h0 hz hw hc =>
    have hm := writeEntry_moment hw
    have hfd := writeEntry_fd hw
    obtain ⟨l, hl, -⟩ := hm.exact (readEntry_exact hq)
    rw [← List.cons_append, List.append_assoc, Link.replay_append_some replay_read]
    by_cases hsame : (readEntry r round e).client.fd = fd
    · rw [hsame] at hl
      rw [Link.replay_append_some hl, replay_close, if_pos (hfd.trans hsame)]
    · have hother : ∀ x ∈ w.events, x.link ≠ some fd := by
        intro x hx
        rw [hm.events x hx]
        exact fun heq => hsame (Option.some.inj heq)
      rw [Link.replay_append_some (Link.replay_others hother), replay_close, ite_self]
  | kept w h0 hz hw hc =>
    have hnil := (writeEntry_cases hw).resolve_right hc
    rw [hnil, List.append_nil]
    exact replay_read

theorem visitEntry_quiet {e' : Entry} (hq : Quiet e) (h : visitEntry r round e = .ok v)
    (hk : v.kept = some e') : Quiet e' := by
  rcases visitEntry_kept h hk with ⟨rfl, -⟩ | ⟨-, hst, rfl⟩
  · exact hq
  · exact ⟨(readEntry_quiet hq).1, hst, fun hr => (readEntry_quiet hq).2 (Or.inl hr)⟩

end Visits

/-- The slot is that of a ready client whose `revents` report no failure. -/
structure Handled (s : Server) (i : ℕ) : Prop where
  client : s.numListeners ≤ i
  live : i < s.table.fdCount
  ready : (s.table.pfds i).revents ≠ 0
  sound : (s.table.pfds i).revents &&& pollFailed = 0

def afterRead (r : Round) (s : Server) (i : ℕ) : Server :=
  readSlot r (s.emit [.visit (s.table.pfds i) (s.table.clients i)]) i

/-- The states that a round goes through: between two iterations of its loop,
behind the read handler, and at every moment of the write handler. -/
inductive Moment (r : Round) (s₀ : Server) : Server → Prop
  | between {s : Server} {i : ℕ} : LoopReach r s₀ s i → Moment r s₀ s
  | read {s : Server} {i : ℕ} : LoopReach r s₀ s i → Handled s i → Moment r s₀ (afterRead r s i)
  | write {s t : Server} {i : ℕ} {o : WriteOutcome} : LoopReach r s₀ s i → Handled s i →
      t = afterRead r s i → (s.table.pfds i).revents &&& pollOut ≠ 0 →
      ((t.table.clients i).state = .sendingHeader ∨ (t.table.clients i).state = .sendingBody) →
      WriteMoment (r.sends (t.table.clients i).fd) (t.table.clients i) o →
      Moment r s₀ (t.put i (t.table.pfds i) o.client o.events)

section Loop

variable {r : Round} {s₀ s s' : Server} {i j : ℕ}

theorem AllQuiet.polled (h : AllQuiet s) : AllQuiet (s.polled r) := by
  refine ⟨fun e he => ?_, h.links⟩
  obtain ⟨e₀, h0, m, rfl⟩ := polled_entry he
  exact ⟨(h.clients e₀ h0).nothing, (h.clients e₀ h0).stays, (h.clients e₀ h0).unstaged⟩

theorem AllQuiet.listener (hn : s.numListeners ≤ s.table.fdCount) (h : AllQuiet s)
    (hv : visitListener r s i = .ok s') : AllQuiet s' := by
  obtain ⟨new, hl, -, ht, hnew, heff⟩ := visitListener_ok hv
  refine ⟨fun e he => ?_, fun fd => ht ▸ h.links fd⟩
  rw [Server.entries, hl, heff.live s.numListeners hn] at he
  rcases List.mem_append.mp he with he | he
  · exact h.clients e he
  · refine fresh_all (fun a _ e hf => ?_) hnew e he
    obtain ⟨old, rfl⟩ := hf
    exact ⟨rfl, (fun h => by cases h), fun _ => rfl⟩

theorem AllQuiet.client (hi : LoopInv r s i) (h : AllQuiet s) (h1 : s.numListeners ≤ i)
    (h2 : i < s.table.fdCount) (hv : visitClient r s i = .ok (s', j)) : AllQuiet s' := by
  have hpos := hi.inv.pos
  have hslot : Quiet (s.table.slot i) := h.clients _ (mem_live.mpr ⟨i, h1, h2, rfl⟩)
  obtain ⟨v, he, heff⟩ := visitClient_inv (by omega) h2 hv
  refine ⟨fun e hm => ?_, fun fd => ?_⟩
  · rcases slotEffect_mem h1 h2 heff hm with hold | hkept
    · exact h.clients e hold
    · exact visitEntry_quiet hslot he hkept
  · rw [heff.trace, link_append_some (h.links fd)]
    exact visitEntry_links hslot he fd

theorem loopReach_quiet (hs : s₀.Inv) (hk : FreshFds r s₀) (h0 : AllQuiet s₀)
    (h : LoopReach r s₀ s i) : AllQuiet s :=
  LoopReach.invariant (P := fun s _ => AllQuiet s) h0.polled
    (fun hr hq _ hv => hq.listener (loopReach_inv hs hk hr).inv.least hv)
    (fun hr hq h1 h2 hv => hq.client (loopReach_inv hs hk hr) h1 h2 hv) h

theorem step_quiet {a : PollAnswer} (hs : s.Inv) (hk : NewFdsFresh s a) (hq : AllQuiet s)
    (h : s.step a = .ok s') : AllQuiet s' := by
  cases a with
  | eintr =>
    cases h
    exact hq
  | fatal => cases h
  | ready r =>
    have hround : pollRound s r = .ok s' := h
    rw [pollRound] at hround
    cases hf : forLoop r (loopFuel s r) (s.polled r) 0 with
    | error x =>
      rw [hf] at hround
      cases hround
    | ok t =>
      rw [hf] at hround
      cases hround
      obtain ⟨j, hj⟩ := forLoop_reach .start hf
      have ht := loopReach_quiet hs hk hq hj
      exact ⟨ht.clients, ht.links⟩

theorem setup_quiet {pfds : ℕ → PollFd} {clients : ℕ → Client} {v4 v6 : Option ℕ}
    (h : setup pfds clients v4 v6 = .ok s) : AllQuiet s := by
  refine ⟨(setup_entrywise h).all, fun fd => ?_⟩
  simp only [setup] at h
  split_ifs at h
  cases h
  rfl

theorem eventLoop_quiet {pfds : ℕ → PollFd} {clients : ℕ → Client} {v4 v6 : Option ℕ}
    {answers : List PollAnswer} (h0 : setup pfds clients v4 v6 = .ok s₀)
    (hf : Run.Along Server.step NewFdsFresh s₀ answers) (h : eventLoop s₀ answers = .ok s) :
    s.Inv ∧ AllQuiet s :=
  Run.invariant (I := fun s => s.Inv ∧ AllQuiet s)
    (fun _ _ _ hi hk hstep => ⟨step_inv hi.1 hk hstep, step_quiet hi.1 hk hi.2 hstep⟩)
    ⟨setup_inv h0, setup_quiet h0⟩ hf h

/-- Every connection of the table is exact, and no byte of the whole run came
behind a shutdown. -/
def ExactServer (s : Server) : Prop :=
  (∀ e ∈ s.entries, ∃ l, link e.fd s.trace = some l ∧ Exact l e.2) ∧
    ∀ fd, link fd s.trace ≠ none

theorem AllQuiet.exact (h : AllQuiet s) : ExactServer s := by
  refine ⟨fun e he => ⟨.fresh, h.links e.fd, (h.clients e he).exact⟩, fun fd => ?_⟩
  rw [h.links fd]
  exact Option.some_ne_none _

theorem put_mem {p : PollFd} {c : Client} {ev : List Event} {e : Entry} (hs : s.Inv)
    (h1 : s.numListeners ≤ i) (h2 : i < s.table.fdCount) (hfd : c.fd = (s.table.clients i).fd)
    (he : e ∈ (s.put i p c ev).entries) : e = (p, c) ∨ (e ∈ s.entries ∧ e.fd ≠ c.fd) := by
  have hd := hs.distinct
  have hold : s.entries = live s.table.slot s.numListeners i ++
      s.table.slot i :: live s.table.slot (i + 1) s.table.fdCount := live_around h1 h2
  have hnew : (s.put i p c ev).entries = live s.table.slot s.numListeners i ++
      (p, c) :: live s.table.slot (i + 1) s.table.fdCount := by
    rw [Server.entries, put_slot]
    exact live_update _ h1 h2
  rw [live_around h1 h2, (List.perm_middle.map Entry.fd).nodup_iff, List.map_cons,
    List.nodup_cons] at hd
  rw [hnew, List.perm_middle.mem_iff, List.mem_cons] at he
  rcases he with he | he
  · exact Or.inl he
  · refine Or.inr ⟨?_, fun heq => hd.1 (List.mem_map.mpr ⟨e, he, heq.trans hfd⟩)⟩
    rw [hold, List.perm_middle.mem_iff]
    exact List.mem_cons_of_mem _ he

theorem put_exact {p : PollFd} {c : Client} {ev : List Event} {l : Link} (hi : LoopInv r s i)
    (hq : AllQuiet s) (hh : Handled s i) (hfd : c.fd = (s.table.clients i).fd)
    (hl : Link.replay c.fd .fresh ev = some l) (he : Exact l c)
    (hev : ∀ x ∈ ev, x.link = none ∨ x.link = some c.fd) : ExactServer (s.put i p c ev) := by
  have hother : ∀ fd, fd ≠ c.fd → link fd (s.trace ++ ev) = some .fresh := by
    intro fd hne
    rw [link_append_some (hq.links fd)]
    apply Link.replay_others
    intro x hx heq
    rcases hev x hx with hn | hs
    · rw [hn] at heq
      cases heq
    · rw [hs] at heq
      exact hne (Option.some.inj heq).symm
  have hself : link c.fd (s.trace ++ ev) = some l := by
    rw [link_append_some (hq.links c.fd), hl]
  refine ⟨fun e hm => ?_, fun fd => ?_⟩
  · rcases put_mem hi.inv hh.client hh.live hfd hm with rfl | ⟨hold, hne⟩
    · exact ⟨l, hself, he⟩
    · exact ⟨.fresh, hother e.fd hne, (hq.clients e hold).exact⟩
  · change link fd (s.trace ++ ev) ≠ none
    by_cases hf : fd = c.fd
    · rw [hf, hself]
      exact Option.some_ne_none _
    · rw [hother fd hf]
      exact Option.some_ne_none _

theorem Moment.exactServer {m : Server} (hs : s₀.Inv) (hk : FreshFds r s₀) (h0 : AllQuiet s₀)
    (h : Moment r s₀ m) : ExactServer m := by
  cases h with
  | between hr => exact (loopReach_quiet hs hk h0 hr).exact
  | @read s i hr hh =>
    have hq := loopReach_quiet hs hk h0 hr
    have hslot : Quiet (s.table.slot i) :=
      hq.clients _ (mem_live.mpr ⟨i, hh.client, hh.live, rfl⟩)
    rw [afterRead, readSlot_emit]
    refine put_exact (loopReach_inv hs hk hr) hq hh readEntry_fd.1 replay_read
      (readEntry_exact hslot) ?_
    intro x hx
    rcases List.mem_cons.mp hx with rfl | hx
    · exact Or.inl rfl
    · exact Or.inl (readEntry_links x hx)
  | @write s t i o hr hh ht hout hst hw =>
    have hq := loopReach_quiet hs hk h0 hr
    have hslot : Quiet (s.table.slot i) :=
      hq.clients _ (mem_live.mpr ⟨i, hh.client, hh.live, rfl⟩)
    rw [afterRead, readSlot_emit] at ht
    have hc : t.table.clients i = (readEntry r s.round (s.table.slot i)).client := by
      rw [ht, put_client]
    rw [hc] at hw
    have hfd : o.client.fd = (readEntry r s.round (s.table.slot i)).client.fd := by
      rw [hw.frame]
    obtain ⟨l, hl, he⟩ := hw.exact (readEntry_exact hslot)
    rw [ht, put_put]
    refine put_exact (l := l) (loopReach_inv hs hk hr) hq hh (hfd.trans readEntry_fd.1) ?_ he ?_
    · refine (Link.replay_append_some (replay_read (e := s.table.slot i))).trans ?_
      rw [hfd]
      exact hl
    · intro x hx
      rcases List.mem_append.mp hx with hx | hx
      · rcases List.mem_cons.mp hx with rfl | hx
        · exact Or.inl rfl
        · exact Or.inl (readEntry_links x hx)
      · rw [hfd]
        exact Or.inr (hw.events x hx)

end Loop

/-- However its `send` calls are answered, and at every moment of any number of
calls of `do_write`, the kernel has accepted exactly the first `output_sent`
bytes of a staged response; and so it is for every client at every moment of
every run of the server. -/
theorem transmission_exact :
    (∀ (calls : List (List SendResult)) (c : Client) (o : WriteOutcome),
      c.state ≠ .closing → c.outputSent = 0 → CallMoment calls c o →
        o.client.outBuf = c.outBuf ∧ o.client.outputLength = c.outputLength ∧
          ∃ l, link c.fd o.events = some l ∧ Exact l o.client) ∧
    ∀ (pfds : ℕ → PollFd) (clients : ℕ → Client) (v4 v6 : Option ℕ) (s₀ s m : Server)
      (answers : List PollAnswer) (r : Round), setup pfds clients v4 v6 = .ok s₀ →
        Run.Along Server.step NewFdsFresh s₀ answers → eventLoop s₀ answers = .ok s →
        FreshFds r s → Moment r s m → ExactServer m := by
  refine ⟨fun calls c o hst h0 hm => ?_, ?_⟩
  · obtain ⟨hex, hfr⟩ := hm.exact (exact_fresh h0 fun hc => absurd hc hst)
    rw [hfr]
    refine ⟨rfl, rfl, ?_⟩
    rw [← hfr]
    exact hex
  · intro pfds clients v4 v6 s₀ s m answers r h0 hf h hk hm
    obtain ⟨hs, hq⟩ := eventLoop_quiet h0 hf h
    exact hm.exactServer hs hk hq

/-- Ten bytes are accepted, and then the socket is full. -/
def partialRound : Round := writeRound [.ret 10, .fail .EAGAIN]

theorem transmission_exact_partial :
    ∃ s m, eventLoop startServer twoStaged = .ok s ∧ Moment partialRound s m ∧ ExactServer m ∧
      (m.table.clients 1).outputSent = 10 := by
  obtain ⟨s, hs, ht⟩ := Run.arrives_iff.mp (show Run.arrives (fun s =>
    let t := afterRead partialRound (s.polled partialRound) 1
    decide (s.numListeners = 1 ∧ 1 < s.table.fdCount ∧ NewFdsFresh s (.ready partialRound) ∧
      (t.table.clients 1).state = .sendingHeader ∧
      ¬ ((t.table.clients 1).outBuf = none ∨ (t.table.clients 1).outputLength = 0) ∧
      (t.table.clients 1).outputSent = 0 ∧
      10 < (t.table.clients 1).outputLength)) (eventLoop startServer twoStaged) = true by
        decide +kernel)
  obtain ⟨hn, hc, hk, hst, hb, h0, hlen⟩ := of_decide_eq_true ht
  have hr := loopReach_first (r := partialRound) hn (by omega) rfl
  have hrev : ((s.polled partialRound).table.pfds 1).revents = pollOut := by
    simp [Server.polled, hc, partialRound, writeRound]
  have hh : Handled (s.polled partialRound) 1 :=
    ⟨hn.le, hc, by rw [hrev]; decide, by rw [hrev]; decide⟩
  have hcount : (SendResult.ret 10).count
      (((afterRead partialRound (s.polled partialRound) 1).table.clients 1).outputLength -
        ((afterRead partialRound (s.polled partialRound) 1).table.clients 1).outputSent) = 10 :=
    Nat.min_eq_left (by omega)
  have hm := Moment.write hr hh rfl (by rw [hrev]; decide) (Or.inl hst)
    (.loop hb (.sent (a := .ret 10) (by omega) (by omega) (.start _ [.fail .EAGAIN])))
  have hf : Run.Along Server.step NewFdsFresh startServer twoStaged := by decide +kernel
  refine ⟨s, _, hs, hm, transmission_exact.2 _ _ _ _ _ _ _ _ _ setup_startServer hf hs hk hm, ?_⟩
  rw [put_client, Client.advance, hcount]
  exact congrArg (· + 10) h0

end SimpleServer
