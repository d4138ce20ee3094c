import SimpleServer.Main
import SimpleServer.Lib.SlotArray

/-!
# One poll round over the live entries

A visit of a client slot is a function of that slot alone (`visitEntry`): it
leaves an entry in the slot or removes it, and appends events to the trace.
The table-level loop body does exactly this to its slot and leaves the slots
below it alone; a removal moves the last slot in. By induction over the fuel
the whole `for` loop is then a sweep over the live entries, first extended by
the connections the listeners accept: it visits a permutation of them, keeps
in order what the visits keep, and never runs out of fuel.
-/

namespace SimpleServer

open CString FileTree SlotArray

abbrev Entry := PollFd × Client

def Entry.fd (e : Entry) : ℕ := e.2.fd

def Table.slot (t : Table) (i : ℕ) : Entry := (t.pfds i, t.clients i)

def Server.entries (s : Server) : List Entry := live s.table.slot s.numListeners s.table.fdCount

def readEntry (r : Round) (round : ℕ) (e : Entry) : ReadOutcome :=
  if e.1.revents &&& pollIn ≠ 0 ∧ e.2.state = .reading then
    doRead (r.env e.2.fd) round (r.recvs e.2.fd) e.2 e.1
  else ⟨e.2, e.1, []⟩

def writeEntry (r : Round) (revents : PollMask) (c : Client) : Except ExitStatus WriteOutcome :=
  if revents &&& pollOut ≠ 0 ∧ (c.state = .sendingHeader ∨ c.state = .sendingBody) then
    doWrite (r.sends c.fd) c
  else .ok ⟨c, []⟩

structure Visit where
  kept : Option Entry
  events : List Event
  deriving DecidableEq, Repr

/-- The two handlers on one entry whose `revents` report no failure. -/
def dispatch (r : Round) (round : ℕ) (e : Entry) : Except ExitStatus Visit :=
  let o := readEntry r round e
  match writeEntry r e.1.revents o.client with
  | .error x => .error x
  | .ok w =>
    let events := .visit e.1 e.2 :: (o.events ++ w.events)
    if w.client.state = .closing then .ok ⟨none, events ++ closeEvents w.client⟩
    else .ok ⟨some (o.pollFd, w.client), events⟩

def visitEntry (r : Round) (round : ℕ) (e : Entry) : Except ExitStatus Visit :=
  if e.1.revents = 0 then .ok ⟨some e, []⟩
  else if e.1.revents &&& pollFailed ≠ 0 then .ok ⟨none, .visit e.1 e.2 :: closeEvents e.2⟩
  else dispatch r round e

def keptBy (r : Round) (round : ℕ) (e : Entry) : Option Entry :=
  match visitEntry r round e with
  | .ok v => v.kept
  | .error _ => none

def eventsOf (r : Round) (round : ℕ) (e : Entry) : List Event :=
  match visitEntry r round e with
  | .ok v => v.events
  | .error _ => []

section Entry

variable {r : Round} {round : ℕ} {e : Entry}

theorem visitEntry_idle (h0 : e.1.revents = 0) : visitEntry r round e = .ok ⟨some e, []⟩ :=
  if_pos h0

theorem visitEntry_failed (h0 : e.1.revents ≠ 0) (h1 : e.1.revents &&& pollFailed ≠ 0) :
    visitEntry r round e = .ok ⟨none, .visit e.1 e.2 :: closeEvents e.2⟩ :=
  (if_neg h0).trans (if_pos h1)

theorem visitEntry_dispatch (h0 : e.1.revents ≠ 0) (h1 : ¬ e.1.revents &&& pollFailed ≠ 0) :
    visitEntry r round e = dispatch r round e :=
  (if_neg h0).trans (if_neg h1)

theorem dispatch_error {x : ExitStatus}
    (h : writeEntry r e.1.revents (readEntry r round e).client = .error x) :
    dispatch r round e = .error x := by
  simp only [dispatch, h]

theorem dispatch_closing {w : WriteOutcome}
    (h : writeEntry r e.1.revents (readEntry r round e).client = .ok w)
    (hc : w.client.state = .closing) :
    dispatch r round e = .ok ⟨none, .visit e.1 e.2 ::
      ((readEntry r round e).events ++ w.events) ++ closeEvents w.client⟩ := by
  simp only [dispatch, h, hc, if_true]

theorem dispatch_kept {w : WriteOutcome}
    (h : writeEntry r e.1.revents (readEntry r round e).client = .ok w)
    (hc : w.client.state ≠ .closing) :
    dispatch r round e = .ok ⟨some ((readEntry r round e).pollFd, w.client),
      .visit e.1 e.2 :: ((readEntry r round e).events ++ w.events)⟩ := by
  simp only [dispatch, h, hc, if_false]

/-- The four ways in which a visit ends. -/
inductive VisitCases (r : Round) (round : ℕ) (e : Entry) : Visit → Prop
  | idle : e.1.revents = 0 → VisitCases r round e ⟨some e, []⟩
  | failed : e.1.revents ≠ 0 → e.1.revents &&& pollFailed ≠ 0 →
      VisitCases r round e ⟨none, .visit e.1 e.2 :: closeEvents e.2⟩
  | closing (w : WriteOutcome) : e.1.revents ≠ 0 → e.1.revents &&& pollFailed = 0 →
      writeEntry r e.1.revents (readEntry r round e).client = .ok w →
      w.client.state = .closing →
      VisitCases r round e ⟨none, .visit e.1 e.2 ::
        ((readEntry r round e).events ++ w.events) ++ closeEvents w.client⟩
  | kept (w : WriteOutcome) : e.1.revents ≠ 0 → e.1.revents &&& pollFailed = 0 →
      writeEntry r e.1.revents (readEntry r round e).client = .ok w →
      w.client.state ≠ .closing →
      VisitCases r round e ⟨some ((readEntry r round e).pollFd, w.client),
        .visit e.1 e.2 :: ((readEntry r round e).events ++ w.events)⟩

theorem visitEntry_outcome (r : Round) (round : ℕ) (e : Entry) :
    (∃ v, visitEntry r round e = .ok v ∧ VisitCases r round e v) ∨
      ∃ x, visitEntry r round e = .error x ∧ e.1.revents ≠ 0 ∧ e.1.revents &&& pollFailed = 0 ∧
        writeEntry r e.1.revents (readEntry r round e).client = .error x := by
  by_cases h0 : e.1.revents = 0
  · exact Or.inl ⟨_, visitEntry_idle h0, .idle h0⟩
  by_cases h1 : e.1.revents &&& pollFailed ≠ 0
  · exact Or.inl ⟨_, visitEntry_failed h0 h1, .failed h0 h1⟩
  have hz : e.1.revents &&& pollFailed = 0 := not_not.mp h1
  rw [visitEntry_dispatch h0 h1]
  cases hw : writeEntry r e.1.revents (readEntry r round e).client with
  | error x => exact Or.inr ⟨x, dispatch_error hw, h0, hz, rfl⟩
  | ok w =>
    by_cases hc : w.client.state = .closing
    · exact Or.inl ⟨_, dispatch_closing hw hc, .closing w h0 hz hw hc⟩
    · exact Or.inl ⟨_, dispatch_kept hw hc, .kept w h0 hz hw hc⟩

theorem visitEntry_cases {v : Visit} (h : visitEntry r round e = .ok v) :
    VisitCases r round e v := by
  rcases visitEntry_outcome r round e with ⟨v', hv, hcases⟩ | ⟨x, hx, -⟩
  · rw [hv] at h
    cases h
    exact hcases
  · rw [hx] at h
    cases h

theorem visitEntry_error {x : ExitStatus} (h : visitEntry r round e = .error x) :
    e.1.revents ≠ 0 ∧ e.1.revents &&& pollFailed = 0 ∧
      writeEntry r e.1.revents (readEntry r round e).client = .error x := by
  rcases visitEntry_outcome r round e with ⟨v, hv, -⟩ | ⟨y, hy, hrest⟩
  · rw [hv] at h
    cases h
  · rw [hy] at h
    cases h
    exact hrest

end Entry

theorem slot_update (t : Table) (i n m : ℕ) (p : PollFd) (c : Client) :
    (⟨Function.update t.pfds i p, Function.update t.clients i c, n, m⟩ : Table).slot =
      Function.update t.slot i (p, c) := by
  funext j
  rcases eq_or_ne j i with h | h
  · subst h
    simp [Table.slot]
  · simp [Table.slot, h]

section Slot

variable (r : Round) (s : Server) (i : ℕ)

theorem put_self : s.put i (s.table.pfds i) (s.table.clients i) [] = s := by
  simp [Server.put, Function.update_eq_self]

theorem emit_eq (ev : List Event) :
    s.emit ev = s.put i (s.table.pfds i) (s.table.clients i) ev := by
  simp [Server.put, Server.emit, Function.update_eq_self]

theorem readSlot_eq :
    readSlot r s i = s.put i (readEntry r s.round (s.table.slot i)).pollFd
      (readEntry r s.round (s.table.slot i)).client
      (readEntry r s.round (s.table.slot i)).events := by
  by_cases h : (s.table.pfds i).revents &&& pollIn ≠ 0 ∧ (s.table.clients i).state = .reading
  · have he : readEntry r s.round (s.table.slot i) = doRead (r.env (s.table.clients i).fd) s.round
        (r.recvs (s.table.clients i).fd) (s.table.clients i) (s.table.pfds i) := if_pos h
    rw [he]
    exact if_pos h
  · have he : readEntry r s.round (s.table.slot i) =
        ⟨s.table.clients i, s.table.pfds i, []⟩ := if_neg h
    rw [he, put_self]
    exact if_neg h

theorem writeSlot_error {revents : PollMask} {x : ExitStatus}
    (h : writeEntry r revents (s.table.clients i) = .error x) :
    writeSlot r revents s i = .error x := by
  simp only [writeEntry] at h
  simp only [writeSlot]
  split_ifs at h ⊢
  · simp [h]

theorem writeSlot_ok {revents : PollMask} {o : WriteOutcome}
    (h : writeEntry r revents (s.table.clients i) = .ok o) :
    writeSlot r revents s i = .ok (s.put i (s.table.pfds i) o.client o.events) := by
  simp only [writeEntry] at h
  simp only [writeSlot]
  split_ifs at h ⊢
  · simp [h]
  · cases h
    rw [put_self]

theorem put_put (p p' : PollFd) (c c' : Client) (ev ev' : List Event) :
    (s.put i p c ev).put i p' c' ev' = s.put i p' c' (ev ++ ev') := by
  simp [Server.put, Function.update_idem, List.append_assoc]

theorem put_slot (p : PollFd) (c : Client) (ev : List Event) :
    (s.put i p c ev).table.slot = Function.update s.table.slot i (p, c) :=
  slot_update s.table i _ _ p c

theorem put_slot_self (p : PollFd) (c : Client) (ev : List Event) :
    (s.put i p c ev).table.slot i = (p, c) := by
  rw [put_slot, Function.update_self]

theorem put_client (p : PollFd) (c : Client) (ev : List Event) :
    (s.put i p c ev).table.clients i = c := congrArg Prod.snd (put_slot_self s i p c ev)

theorem put_pfd (p : PollFd) (c : Client) (ev : List Event) :
    (s.put i p c ev).table.pfds i = p := congrArg Prod.fst (put_slot_self s i p c ev)

theorem readSlot_emit :
    readSlot r (s.emit [.visit (s.table.pfds i) (s.table.clients i)]) i =
      s.put i (readEntry r s.round (s.table.slot i)).pollFd
        (readEntry r s.round (s.table.slot i)).client
        (.visit (s.table.pfds i) (s.table.clients i) ::
          (readEntry r s.round (s.table.slot i)).events) := by
  rw [emit_eq s i, readSlot_eq, put_slot_self, put_put]
  rfl

end Slot

/-- What a visit of slot `i` does to the server: the entries below stay, the
visited one is kept or the last one takes its place. -/
structure SlotEffect (s : Server) (i : ℕ) (v : Visit) (s' : Server) (j : ℕ) : Prop where
  listeners : s'.numListeners = s.numListeners
  round : s'.round = s.round
  size : s'.table.fdSize = s.table.fdSize
  trace : s'.trace = s.trace ++ v.events
  below : ∀ l < i, s'.table.slot l = s.table.slot l
  kept : ∀ e, v.kept = some e → j = i + 1 ∧ s'.table.fdCount = s.table.fdCount ∧
    s'.table.slot = Function.update s.table.slot i e
  gone : v.kept = none → j = i ∧ s'.table.fdCount = s.table.fdCount - 1 ∧
    live s'.table.slot i s'.table.fdCount =
      backToFront (live s.table.slot (i + 1) s.table.fdCount)

section Visits

variable {r : Round} {s s' : Server} {i j : ℕ}

theorem closeConn_slot {t₀ : Table} (hi : 0 < i) (hlt : i < t₀.fdCount) (t : Table)
    (ht : t.slot = Function.update t₀.slot i (t.slot i)) (hc : t.fdCount = t₀.fdCount) :
    (closeConn i t).1.fdCount = t₀.fdCount - 1 ∧ (closeConn i t).1.fdSize = t.fdSize ∧
      (∀ l < i, (closeConn i t).1.slot l = t₀.slot l) ∧
      live (closeConn i t).1.slot i (t₀.fdCount - 1) =
        backToFront (live t₀.slot (i + 1) t₀.fdCount) := by
  have hbelow : ∀ l, l ≠ i → t.slot l = t₀.slot l := fun l hl => by
    rw [ht, Function.update_of_ne hl]
  have hlive : live t.slot (i + 1) t₀.fdCount = live t₀.slot (i + 1) t₀.fdCount :=
    live_congr fun l h1 _ => hbelow l (by omega)
  rw [closeConn, if_neg (by omega), ← hlive]
  by_cases hlast : i ≠ t.fdCount - 1
  · rw [if_pos hlast]
    refine ⟨by simp [hc], rfl, ?_, ?_⟩
    · intro l hl
      rw [slot_update, Function.update_of_ne (by omega)]
      exact hbelow l (by omega)
    · rw [slot_update, hc]
      exact live_moveLast hlt
  · rw [if_neg hlast]
    refine ⟨by simp [hc], rfl, fun l hl => hbelow l (by omega), ?_⟩
    rw [live_of_le (by omega), live_of_le (by omega)]
    rfl

theorem put_close_effect (hi : 0 < i) (hlt : i < s.table.fdCount) (p : PollFd) (c : Client)
    (ev : List Event) :
    SlotEffect s i ⟨none, ev ++ closeEvents c⟩ ((s.put i p c ev).close i) i := by
  have hslot := put_slot s i p c ev
  have hself : (s.put i p c ev).table.slot i = (p, c) := by rw [hslot, Function.update_self]
  have hclient : (s.put i p c ev).table.clients i = c := congrArg Prod.snd hself
  obtain ⟨h1, h2, h3, h4⟩ := closeConn_slot hi hlt (s.put i p c ev).table
    (by rw [hself]; exact hslot) rfl
  refine ⟨rfl, rfl, h2, ?_, h3, ?_, ?_⟩
  · have he : (closeConn i (s.put i p c ev).table).2 = closeEvents c := by
      rw [closeConn_events hi, hclient]
    change s.trace ++ ev ++ (closeConn i (s.put i p c ev).table).2 = _
    rw [he, List.append_assoc]
  · intro e he
    simp at he
  · intro _
    refine ⟨rfl, h1, ?_⟩
    change live (closeConn i (s.put i p c ev).table).1.slot i
      (closeConn i (s.put i p c ev).table).1.fdCount = _
    rw [h1]
    exact h4

theorem put_keep_effect (p : PollFd) (c : Client) (ev : List Event) :
    SlotEffect s i ⟨some (p, c), ev⟩ (s.put i p c ev) (i + 1) := by
  have hslot := put_slot s i p c ev
  refine ⟨rfl, rfl, rfl, rfl, ?_, ?_, ?_⟩
  · intro l hl
    rw [hslot, Function.update_of_ne (by omega)]
  · intro e he
    cases he
    exact ⟨rfl, rfl, hslot⟩
  · intro h
    simp at h

theorem visitClient_idle (h0 : (s.table.pfds i).revents = 0) :
    visitClient r s i = .ok (s, i + 1) := if_pos h0

theorem visitClient_failed (h0 : (s.table.pfds i).revents ≠ 0)
    (h1 : (s.table.pfds i).revents &&& pollFailed ≠ 0) :
    visitClient r s i = .ok ((s.put i (s.table.pfds i) (s.table.clients i)
      [.visit (s.table.pfds i) (s.table.clients i)]).close i, i) := by
  rw [← emit_eq]
  exact (if_neg h0).trans (if_pos h1)

theorem visitClient_dispatch (h0 : (s.table.pfds i).revents ≠ 0)
    (h1 : ¬ (s.table.pfds i).revents &&& pollFailed ≠ 0) :
    visitClient r s i =
      match writeEntry r (s.table.pfds i).revents
          (readEntry r s.round (s.table.slot i)).client with
      | .error x => .error x
      | .ok w =>
        let t := s.put i (readEntry r s.round (s.table.slot i)).pollFd w.client
          (.visit (s.table.pfds i) (s.table.clients i) ::
            ((readEntry r s.round (s.table.slot i)).events ++ w.events))
        if w.client.state = .closing then .ok (t.close i, i) else .ok (t, i + 1) := by
  refine ((if_neg h0).trans (if_neg h1)).trans ?_
  rw [readSlot_emit]
  cases hw : writeEntry r (s.table.pfds i).revents
      (readEntry r s.round (s.table.slot i)).client with
  | error x => rw [writeSlot_error r _ i (by rw [put_client]; exact hw)]
  | ok w =>
    rw [writeSlot_ok r _ i (by rw [put_client]; exact hw), put_pfd, put_put]
    simp only [put_client]
    rfl

theorem visitClient_error {x : ExitStatus} (h : visitEntry r s.round (s.table.slot i) = .error x) :
    visitClient r s i = .error x := by
  obtain ⟨h0, hz, hw⟩ := visitEntry_error h
  rw [visitClient_dispatch h0 (not_not.mpr hz)]
  simp only [Table.slot] at hw
  simp only [Table.slot, hw]

theorem visitClient_ok (hi : 0 < i) (hlt : i < s.table.fdCount) {v : Visit}
    (h : visitEntry r s.round (s.table.slot i) = .ok v) :
    ∃ s' j, visitClient r s i = .ok (s', j) ∧ SlotEffect s i v s' j := by
  cases visitEntry_cases h with
  | idle h0 =>
    have hk := put_keep_effect (s := s) (i := i) (s.table.pfds i) (s.table.clients i) []
    rw [put_self] at hk
    exact ⟨s, i + 1, visitClient_idle h0, hk⟩
  | failed h0 h1 => exact ⟨_, i, visitClient_failed h0 h1, put_close_effect hi hlt _ _ [_]⟩
  | closing w h0 hz hw hc =>
    have hv : visitClient r s i = _ := visitClient_dispatch h0 (not_not.mpr hz)
    simp only [Table.slot] at hw
    simp only [Table.slot, hw, hc, if_true] at hv
    exact ⟨_, i, hv, put_close_effect hi hlt _ _ _⟩
  | kept w h0 hz hw hc =>
    have hv : visitClient r s i = _ := visitClient_dispatch h0 (not_not.mpr hz)
    simp only [Table.slot] at hw
    simp only [Table.slot, hw, hc, if_false] at hv
    exact ⟨_, i + 1, hv, put_keep_effect _ _ _⟩

theorem visitClient_inv (hi : 0 < i) (hlt : i < s.table.fdCount)
    (h : visitClient r s i = .ok (s', j)) :
    ∃ v, visitEntry r s.round (s.table.slot i) = .ok v ∧ SlotEffect s i v s' j := by
  cases hv : visitEntry r s.round (s.table.slot i) with
  | error x =>
    rw [visitClient_error hv] at h
    cases h
  | ok v =>
    obtain ⟨s₁, j₁, hok, heff⟩ := visitClient_ok hi hlt hv
    rw [hok] at h
    cases h
    exact ⟨v, rfl, heff⟩

end Visits

end SimpleServer
