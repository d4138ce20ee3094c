import SimpleServer.Reachable

/-!
# Which states `poll` can see

`main` dispatches a client that is `READING` on `POLLIN` and one that is
sending on `POLLOUT`; a client that waits in any other way is never moved on.
`append` gives up a drain that would outgrow `MAX_REQUEST_SIZE` by selecting
`RESP_414` and entering `PROCESSING`, and `do_read` returns without building
that response or asking for `POLLOUT`. Apart from this one way out, every visit
leaves its client waiting properly or removes it.
-/

namespace SimpleServer

open CString FileTree SlotArray

def Pollable (e : Entry) : Prop :=
  (e.2.state = .reading ∧ e.1.events = pollIn) ∨
    ((e.2.state = .sendingHeader ∨ e.2.state = .sendingBody) ∧ e.1.events = pollOut)

instance (e : Entry) : Decidable (Pollable e) := inferInstanceAs (Decidable (_ ∨ _))

/-- Among the chunks that `do_read` takes from the socket there is one that
would take the buffered input past the limit. -/
def overflows (c : Client) : List RecvResult → Bool
  | [] => false
  | .data chunk realloc :: rest =>
    if maxRequestSize < c.inputLength + chunk.bytes.length then true
    else if c.inputCapacity < c.inputLength + chunk.bytes.length ∧ realloc = false then false
    else overflows (append c chunk.bytes realloc) rest
  | .eof :: _ => false
  | .fail e :: rest => if e = .EINTR then overflows c rest else false

section Drains

variable {c : Client} {rs : List RecvResult}

theorem recvLoop_within (hc : c.state = .reading) (ho : overflows c rs = false) :
    (recvLoop c rs).1.state = .reading ∨ (recvLoop c rs).1.state = .closing := by
  induction rs generalizing c with
  | nil => exact Or.inl hc
  | cons a rs ih =>
    cases a with
    | data chunk realloc =>
      by_cases hm : maxRequestSize < c.inputLength + chunk.bytes.length
      · simp [overflows, hm] at ho
      by_cases hg : c.inputCapacity < c.inputLength + chunk.bytes.length ∧ realloc = false
      · simp [recvLoop, append_failed hm hg]
      · obtain ⟨cap, hs⟩ := append_stored hm hg
        have hst : (append c chunk.bytes realloc).state = .reading := by rw [hs]; exact hc
        have hrest : overflows (append c chunk.bytes realloc) rs = false := by
          simpa only [overflows, hm, hg, if_false] using ho
        simpa only [recvLoop, hst, ne_eq, not_true, if_false] using ih hst hrest
    | eof => exact Or.inr rfl
    | fail e =>
      by_cases hw : e = .EAGAIN ∨ e = .EWOULDBLOCK
      · simp [recvLoop, hw, hc]
      by_cases hi : e = .EINTR
      · simp only [overflows, hi, if_true] at ho
        simpa [recvLoop, hi] using ih hc ho
      · simp [recvLoop, hw, hi]

theorem recvLoop_over (hc : c.state = .reading) (ho : overflows c rs = true) :
    (recvLoop c rs).1.state = .processing ∧ (recvLoop c rs).2 = false := by
  induction rs generalizing c with
  | nil => cases ho
  | cons a rs ih =>
    cases a with
    | data chunk realloc =>
      by_cases hm : maxRequestSize < c.inputLength + chunk.bytes.length
      · simp [recvLoop, append_over hm]
      by_cases hg : c.inputCapacity < c.inputLength + chunk.bytes.length ∧ realloc = false
      · simp only [overflows, hm, hg, and_self, if_true, if_false] at ho
        cases ho
      · obtain ⟨cap, hs⟩ := append_stored hm hg
        have hst : (append c chunk.bytes realloc).state = .reading := by rw [hs]; exact hc
        have hrest : overflows (append c chunk.bytes realloc) rs = true := by
          simpa only [overflows, hm, hg, if_false] using ho
        simpa only [recvLoop, hst, ne_eq, not_true, if_false] using ih hst hrest
    | eof => cases ho
    | fail e =>
      by_cases hi : e = .EINTR
      · simp only [overflows, hi, if_true] at ho
        simpa [recvLoop, hi] using ih hc ho
      · simp [overflows, hi] at ho

end Drains

/-- Reading this client does not take its input past the limit. -/
def WithinLimit (r : Round) (_round : ℕ) (e : Entry) : Prop :=
  e.1.revents &&& pollFailed = 0 → e.1.revents &&& pollIn ≠ 0 → e.2.state = .reading →
    overflows e.2 (r.recvs e.2.fd) = false

instance (r : Round) (round : ℕ) (e : Entry) : Decidable (WithinLimit r round e) :=
  inferInstanceAs (Decidable (_ → _ → _ → _))

section Visits

variable {r : Round} {round : ℕ} {e e' : Entry} {v : Visit}

theorem readEntry_pollable (hq : Pollable e) (hz : e.1.revents &&& pollFailed = 0)
    (hl : WithinLimit r round e) :
    Pollable ((readEntry r round e).pollFd, (readEntry r round e).client) ∨
      (readEntry r round e).client.state = .closing := by
  by_cases hr : e.1.revents &&& pollIn ≠ 0 ∧ e.2.state = .reading
  · have he : readEntry r round e =
        doRead (r.env e.2.fd) round (r.recvs e.2.fd) e.2 e.1 := if_pos hr
    have hin : e.1.events = pollIn := by
      rcases hq with h | h
      · exact h.2
      · rcases h.1 with h | h <;> rw [hr.2] at h <;> cases h
    rw [he]
    rcases doRead_cases (r.env e.2.fd) round (r.recvs e.2.fd) e.2 e.1 with
      ⟨h, -⟩ | ⟨buf, k, -, -, -, -, h⟩
    · rw [h]
      rcases recvLoop_within hr.2 (hl hz hr.1 hr.2) with hst | hst
      · exact Or.inl (Or.inl ⟨hst, hin⟩)
      · exact Or.inr hst
    · rw [h]
      exact Or.inl (Or.inr ⟨Or.inl rfl, rfl⟩)
  · have he : readEntry r round e = ⟨e.2, e.1, []⟩ := if_neg hr
    rw [he]
    exact Or.inl hq

theorem visitEntry_pollable (hq : Pollable e) (hl : WithinLimit r round e)
    (h : visitEntry r round e = .ok v) (hk : v.kept = some e') : Pollable e' := by
  rcases visitEntry_kept h hk with ⟨rfl, -⟩ | ⟨hz, hc, rfl⟩
  · exact hq
  · exact (readEntry_pollable hq hz hl).resolve_right hc

theorem visitEntry_stuck (hl : ¬ WithinLimit r round e) :
    ∃ v e', visitEntry r round e = .ok v ∧ v.kept = some e' ∧ e'.2.state = .processing ∧
      ¬ Pollable e' := by
  simp only [WithinLimit, Classical.not_imp, Bool.not_eq_false] at hl
  obtain ⟨hz, hin, hst, ho⟩ := hl
  have h0 : e.1.revents ≠ 0 := by
    intro h
    rw [h] at hin
    exact hin (by decide)
  have hread : readEntry r round e = ⟨(recvLoop e.2 (r.recvs e.2.fd)).1, e.1, []⟩ := by
    have he : readEntry r round e =
        doRead (r.env e.2.fd) round (r.recvs e.2.fd) e.2 e.1 := if_pos ⟨hin, hst⟩
    rw [he]
    exact if_pos (recvLoop_over hst ho).2
  have hp : (readEntry r round e).client.state = .processing := by
    rw [hread]
    exact (recvLoop_over hst ho).1
  have hw : writeEntry r e.1.revents (readEntry r round e).client =
      .ok ⟨(readEntry r round e).client, []⟩ := by
    apply if_neg
    intro h
    rcases h.2 with h | h <;> rw [hp] at h <;> cases h
  have hv : visitEntry r round e = .ok ⟨some ((readEntry r round e).pollFd,
      (readEntry r round e).client), .visit e.1 e.2 :: ((readEntry r round e).events ++ [])⟩ := by
    rw [visitEntry_dispatch h0 (not_not.mpr hz)]
    exact dispatch_kept hw (by simp only [hp]; decide)
  exact ⟨_, _, hv, rfl, hp, by simp [Pollable, hp]⟩

end Visits

/-- As long as no client's input outgrows the limit, every live client waits
for what `main` will dispatch; one whose input does is stuck at once. -/
theorem polled_clients_pollable {pfds : ℕ → PollFd} {clients : ℕ → Client} {v4 v6 : Option ℕ}
    {s₀ s : Server} {answers : List PollAnswer} (h0 : setup pfds clients v4 v6 = .ok s₀)
    (hl : Run.Along Server.step (EachEntry WithinLimit) s₀ answers)
    (h : eventLoop s₀ answers = .ok s) :
    (∀ e ∈ s.entries, Pollable e) ∧
      ∀ r, ∀ e ∈ (s.polled r).entries, ¬ WithinLimit r s.round e →
        ∃ v e', visitEntry r s.round e = .ok v ∧ v.kept = some e' ∧
          e'.2.state = .processing ∧ ¬ Pollable e' := by
  refine ⟨?_, fun r e _ hn => visitEntry_stuck hn⟩
  refine (eventLoop_entrywise ?_ (fun _ _ hq => hq)
    (fun _ _ _ _ _ hq hc hv hk => visitEntry_pollable hq hc hv hk) (setup_entrywise h0) hl h).all
  intro a e he
  obtain ⟨old, rfl⟩ := he
  exact Or.inl ⟨rfl, rfl⟩

def chunkOf (n : ℕ) (h0 : 0 < n) (h : n ≤ tempBuffer) : Chunk :=
  ⟨List.replicate n 65, by rw [List.length_replicate]; exact h0,
    by rw [List.length_replicate]; exact h⟩

def smallDrain : List RecvResult := [.data (chunkOf 9 (by decide) (by decide)) true]

def oversizedDrain : List RecvResult :=
  List.replicate 5 (.data (chunkOf tempBuffer (by decide) (by decide)) true)

def drainOnce (rs : List RecvResult) : List PollAnswer :=
  [.ready (acceptRound [7]), .ready (readRound emptyEnv rs)]

theorem polled_clients_pollable_small :
    ∃ s, Run.Along Server.step (EachEntry WithinLimit) startServer (drainOnce smallDrain) ∧
      eventLoop startServer (drainOnce smallDrain) = .ok s ∧ ∀ e ∈ s.entries, Pollable e := by
  have hl : Run.Along Server.step (EachEntry WithinLimit) startServer (drainOnce smallDrain) := by
    decide +kernel
  obtain ⟨s, hs, -⟩ := Run.arrives_iff.mp (show Run.arrives (fun _ => true)
    (eventLoop startServer (drainOnce smallDrain)) = true by decide +kernel)
  exact ⟨s, hl, hs, (polled_clients_pollable setup_startServer hl hs).1⟩

theorem oversized_client_stuck :
    ∃ s, eventLoop startServer (drainOnce oversizedDrain) = .ok s ∧
      ∃ e ∈ s.entries, e.2.state = .processing ∧ e.1.events = pollIn ∧ ¬ Pollable e := by
  obtain ⟨s, hs, ht⟩ := Run.arrives_iff.mp (show Run.arrives
    (fun s => decide (∃ e ∈ s.entries,
      e.2.state = .processing ∧ e.1.events = pollIn ∧ ¬ Pollable e))
    (eventLoop startServer (drainOnce oversizedDrain)) = true by decide +kernel)
  exact ⟨s, hs, of_decide_eq_true ht⟩

end SimpleServer
