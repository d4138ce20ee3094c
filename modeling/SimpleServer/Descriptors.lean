import SimpleServer.Holdings
import SimpleServer.Lib.Ledger

/-!
# The descriptors of the sockets along a run

The ledger of a run holds every descriptor that `accept` hands out and every
one that the server closes: at once, where `fcntl` fails on a new connection,
and else in `close_conn`. The kernel promises to hand out no descriptor that is
open. Under that promise the ledger can be replayed from whatever else is open,
so no descriptor is closed twice or closed without being open; what is open
behind the run is what was open before it and the clients of the table. The
table invariant needs no promise of its own.
-/

namespace SimpleServer

open SlotArray Ledger

def acceptLedger : List AcceptResult → List (Ledger.Entry ℕ)
  | [] => []
  | .fail e :: rest => if e = .EINTR then acceptLedger rest else []
  | .conn a :: rest =>
    if a.nonblock = false then .take a.fd :: .give a.fd :: acceptLedger rest
    else .take a.fd :: acceptLedger rest

/-- The listeners' part of a round, in the table as `poll` returned it. -/
def listenLedger (r : Round) (s : Server) : List (Ledger.Entry ℕ) :=
  (List.range' 0 s.numListeners).flatMap fun j =>
    if (s.table.pfds j).revents &&& pollIn ≠ 0 then acceptLedger (r.accepts j) else []

/-- The accepts of a round come before the calls of `close_conn`, since the
listeners have the first slots. -/
def runLedger : Server → List PollAnswer → List (Ledger.Entry ℕ)
  | _, [] => []
  | s, a :: answers =>
    match s.step a with
    | .error _ => []
    | .ok s' =>
      (match a with
        | .ready r => listenLedger r (s.polled r) ++
            (closed (s'.trace.drop s.trace.length)).map .give
        | _ => []) ++ runLedger s' answers

def Settles (held : List ℕ) (es : List (Ledger.Entry ℕ)) (rest : List ℕ) : Prop :=
  ∃ held', replay held es = some held' ∧ held'.Perm rest

section Accept

variable {held rest rest' : List ℕ} {es fs : List (Ledger.Entry ℕ)}

theorem Settles.append (h : Settles held es rest)
    (hr : ∀ held', replay held es = some held' → held'.Perm rest → Settles held' fs rest') :
    Settles held (es ++ fs) rest' := by
  obtain ⟨held', h1, hp⟩ := h
  obtain ⟨held'', h2, hp'⟩ := hr held' h1 hp
  exact ⟨held'', (replay_append_some h1).trans h2, hp'⟩

theorem acceptLedger_settles (rs : List AcceptResult) (h : Fresh held (acceptLedger rs)) :
    Settles held (acceptLedger rs) (held ++ (registered rs).map Accepted.fd) := by
  induction rs generalizing held with
  | nil => exact ⟨held, rfl, by simp [registered]⟩
  | cons a rs ih =>
    cases a with
    | fail e =>
      simp only [acceptLedger, registered] at h ⊢
      split_ifs at h ⊢
      · exact ih h
      · exact ⟨held, rfl, by simp⟩
    | conn a =>
      simp only [acceptLedger, registered] at h ⊢
      split_ifs at h ⊢
      · have hback : Fresh held (acceptLedger rs) := by
          have hrest : Fresh ((a.fd :: held).erase a.fd) (acceptLedger rs) := h.2
          rwa [List.erase_cons_head] at hrest
        rw [Settles, replay_take_give_fresh h.1]
        exact ih hback
      · obtain ⟨held', h1, hp⟩ := ih h.2
        refine ⟨held', (replay_take_fresh h.1).trans h1, hp.trans ?_⟩
        rw [List.map_cons]
        exact List.perm_middle.symm

theorem listenLedger_settles {r : Round} {s : Server} (h : Fresh held (listenLedger r s)) :
    Settles held (listenLedger r s) (held ++ (registeredFrom r s 0).map Accepted.fd) := by
  have hlist : (registeredFrom r s 0).map Accepted.fd =
      (List.range' 0 s.numListeners).flatMap fun j =>
        if (s.table.pfds j).revents &&& pollIn ≠ 0 then (registered (r.accepts j)).map Accepted.fd
        else [] := by
    rw [registeredFrom, Nat.sub_zero, List.map_flatMap]
    refine List.flatMap_congr fun j _ => ?_
    split_ifs <;> rfl
  rw [hlist]
  refine replay_flatMap_adds (fun j _ held hf => ?_) h
  split_ifs at hf ⊢
  · exact acceptLedger_settles _ hf
  · exact ⟨held, rfl, by simp⟩

end Accept

section Rounds

variable {r : Round} {s s' : Server} {new order : List Entry} {others held : List ℕ}

theorem visit_descriptor (he : RoundEffect r s new order s') {e : Entry} (ho : e ∈ order) :
    [e.fd] = closed (eventsOf r s.round e) ++
      (keptBy r s.round e).toList.flatMap fun e => [e.fd] := by
  have hf := eventsOf_facts he ho
  rw [hf.closed]
  cases hk : keptBy r s.round e with
  | none => simp [hf.gone.mp hk]
  | some e' =>
    have hg : goneBy r s.round e ≠ true := by
      intro hg
      have hnone : keptBy r s.round e = none := hf.gone.mpr hg
      rw [hnone] at hk
      cases hk
    simp [hg, (hf.kept e' hk).1]

theorem round_descriptors (he : RoundEffect r s new order s') :
    (s.entries.map Entry.fd ++ (registeredFrom r (s.polled r) 0).map Accepted.fd).Perm
      (closed (s'.trace.drop s.trace.length) ++ s'.entries.map Entry.fd) := by
  have hbal := he.balance (fun e => [e.fd]) (fun _ => [])
    (fun e => closed (eventsOf r s.round e)) (fun _ _ => rfl) fun e ho => by
      rw [List.append_nil, ← visit_descriptor he ho]
  have hmap : ∀ l : List Entry, (l.flatMap fun e => [e.fd]) = l.map Entry.fd :=
    fun _ => List.map_eq_flatMap.symm
  have hgain : (order.flatMap fun _ => ([] : List ℕ)) = [] :=
    List.flatMap_eq_nil_iff.mpr fun _ _ => rfl
  rw [he.trace, List.drop_left, closed_flatMap, ← fresh_fds he.fresh]
  simpa only [hmap, hgain, List.append_nil] using hbal

theorem round_settles (he : RoundEffect r s new order s')
    (hp : held.Perm (others ++ s.entries.map Entry.fd))
    (hf : Fresh held (listenLedger r (s.polled r))) :
    Settles held (listenLedger r (s.polled r) ++
      (closed (s'.trace.drop s.trace.length)).map .give)
      (others ++ s'.entries.map Entry.fd) := by
  refine (listenLedger_settles hf).append fun held' _ hp' => ?_
  refine replay_gives (hp'.trans ?_)
  have hround := (round_descriptors he).append_left others
  refine ((hp.append_right _).trans ?_).trans (hround.trans ?_)
  · rw [List.append_assoc]
  · rw [← List.append_assoc, ← List.append_assoc]
    exact List.perm_append_comm.append_right _

theorem round_freshFds (hp : held.Perm (others ++ s.entries.map Entry.fd)) (hn : held.Nodup)
    (hf : Fresh held (listenLedger r (s.polled r))) : FreshFds r s := by
  obtain ⟨held', h1, hp'⟩ := listenLedger_settles hf
  have hall := (hp'.trans (hp.append_right _)).nodup_iff.mp (replay_nodup h1 hn)
  rw [List.append_assoc] at hall
  exact hall.of_append_right

end Rounds

section Runs

variable {s s' : Server} {answers : List PollAnswer} {others held : List ℕ}

theorem runLedger_ready {r : Round} (h : s.step (.ready r) = .ok s') :
    runLedger s (.ready r :: answers) =
      (listenLedger r (s.polled r) ++ (closed (s'.trace.drop s.trace.length)).map .give) ++
        runLedger s' answers := by
  simp only [runLedger, h]

theorem eventLoop_settles (hs : s.Inv) (hp : held.Perm (others ++ s.entries.map Entry.fd))
    (hn : held.Nodup) (hf : Fresh held (runLedger s answers))
    (h : eventLoop s answers = .ok s') :
    Settles held (runLedger s answers) (others ++ s'.entries.map Entry.fd) ∧ s'.Inv := by
  induction answers generalizing s held with
  | nil =>
    cases h
    exact ⟨⟨held, rfl, hp⟩, hs⟩
  | cons a answers ih =>
    obtain ⟨s₁, h1, h2⟩ := Run.run_cons_ok h
    cases a with
    | eintr =>
      cases h1
      exact ih hs hp hn hf h2
    | fatal => cases h1
    | ready r =>
      obtain ⟨t, new, order, rfl, he⟩ := pollRound_ok hs.pos hs.least h1
      rw [runLedger_ready h1] at hf ⊢
      have hfresh := round_freshFds hp hn hf.left.left
      have hinv : Server.Inv { t with round := s.round + 1 } := step_inv (a := .ready r) hs hfresh h1
      obtain ⟨held₁, hr1, hp1⟩ := round_settles he hp hf.left.left
      obtain ⟨⟨held₂, hr2, hp2⟩, hs'⟩ := ih hinv hp1 (replay_nodup hr1 hn) (hf.right hr1) h2
      exact ⟨⟨held₂, (replay_append_some hr1).trans hr2, hp2⟩, hs'⟩

theorem shutdown_settles {fuel : ℕ} (hpos : 0 < s.numListeners)
    (hp : held.Perm (others ++ s.entries.map Entry.fd))
    (h : shutdownLoop fuel s s.numListeners = .ok s') :
    Settles held ((closed (s'.trace.drop s.trace.length)).map .give) others := by
  obtain ⟨order, hd⟩ := shutdownLoop_drain hpos h
  refine replay_gives (hp.trans ?_)
  have hclosed : closed (order.flatMap fun e => closeEvents e.2) = order.map Entry.fd := by
    rw [closed_flatMap, List.flatMap_congr fun e _ => closed_closeEvents e.2]
    exact List.map_eq_flatMap.symm
  rw [hd.trace, List.drop_left, hclosed]
  exact List.perm_append_comm.trans ((hd.perm.symm.map Entry.fd).append_right _)

end Runs

end SimpleServer
