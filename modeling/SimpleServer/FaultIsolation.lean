import SimpleServer.ClosedTwice
import SimpleServer.ClientStates

/-!
# What one client's event does to the others

A visit touches its own entry alone, in whatever state of the `for` loop it is
made. There are two ways in which it ends the process. `do_write` makes a `send`
that takes nothing: the test `n <= 0` stands before those for `EAGAIN` and
`EINTR`, so a full socket buffer, an interrupted call and a peer that has gone
all lead to the same `exit`. Or a stream is closed twice, which is so for every
client that a file or a script has been served to.
-/

namespace SimpleServer

open CString FileTree SlotArray Ledger

inductive Stall where
  | zero
  | fail (e : Errno)
  deriving DecidableEq, Repr

/-- The first `send` that takes nothing while `left` bytes are to be sent. -/
def sendStall (left : ℕ) : List SendResult → Option Stall
  | [] => if left = 0 then none else some (.fail .EAGAIN)
  | .fail e :: _ => if left = 0 then none else some (.fail e)
  | .ret n :: rest =>
    if left = 0 then none
    else if min n left = 0 then some .zero
    else sendStall (left - min n left) rest

section Sending

variable {c : Client} {rs : List SendResult}

theorem sendStall_zero (rs : List SendResult) : sendStall 0 rs = none := by
  cases rs with
  | nil => rfl
  | cons a rs => cases a <;> rfl

theorem sendLoop_of_stall (c : Client) (rs : List SendResult) :
    (sendStall (c.outputLength - c.outputSent) rs = none ∧ ∃ o, sendLoop c rs = .ok o) ∨
      ((∃ x, sendStall (c.outputLength - c.outputSent) rs = some x) ∧
        sendLoop c rs = .error .failure) := by
  induction rs generalizing c with
  | nil =>
    rcases Nat.lt_or_ge c.outputSent c.outputLength with hlt | hge
    · exact Or.inr ⟨⟨_, if_neg (by omega)⟩, sendLoop_blocked hlt⟩
    · exact Or.inl ⟨if_pos (by omega), _, sendLoop_done hge⟩
  | cons a rs ih =>
    rcases Nat.lt_or_ge c.outputSent c.outputLength with hlt | hge
    · have hleft : c.outputLength - c.outputSent ≠ 0 := by omega
      cases a with
      | fail e => exact Or.inr ⟨⟨.fail e, if_neg hleft⟩, sendLoop_refused hlt rfl⟩
      | ret n =>
        by_cases hn : min n (c.outputLength - c.outputSent) = 0
        · exact Or.inr ⟨⟨.zero, (if_neg hleft).trans (if_pos hn)⟩, sendLoop_refused hlt hn⟩
        · have hs : sendStall (c.outputLength - c.outputSent) (.ret n :: rs) =
              sendStall (c.outputLength - c.outputSent -
                min n (c.outputLength - c.outputSent)) rs := (if_neg hleft).trans (if_neg hn)
          have hadv : (c.advance (min n (c.outputLength - c.outputSent))).outputLength -
              (c.advance (min n (c.outputLength - c.outputSent))).outputSent =
              c.outputLength - c.outputSent - min n (c.outputLength - c.outputSent) :=
            Nat.sub_add_eq _ _ _
          have hi := ih (c.advance (min n (c.outputLength - c.outputSent)))
          rw [hadv, ← hs] at hi
          rw [sendLoop_sent (a := .ret n) hlt hn]
          rcases hi with ⟨h1, o, ho⟩ | ⟨h1, ho⟩
          · exact Or.inl ⟨h1, _, congrArg (Except.map _) ho⟩
          · exact Or.inr ⟨h1, congrArg (Except.map _) ho⟩
    · have hz : c.outputLength - c.outputSent = 0 := by omega
      rw [hz, sendStall_zero]
      exact Or.inl ⟨rfl, _, sendLoop_done hge⟩

theorem doWrite_ok_iff :
    (∃ o, doWrite rs c = .ok o) ↔
      (c.outBuf ≠ none → sendStall (c.outputLength - c.outputSent) rs = none) := by
  by_cases hb : c.outBuf = none ∨ c.outputLength = 0
  · have hok : ∃ o, doWrite rs c = .ok o := ⟨_, if_pos hb⟩
    refine ⟨fun _ hne => ?_, fun _ => hok⟩
    rw [hb.resolve_left hne, Nat.zero_sub, sendStall_zero]
  · have hd : doWrite rs c = sendLoop c rs := if_neg hb
    rw [hd]
    rcases sendLoop_of_stall c rs with ⟨h1, ho⟩ | ⟨⟨x, h1⟩, he⟩
    · exact ⟨fun _ _ => h1, fun _ => ho⟩
    · constructor
      · intro h
        obtain ⟨o, ho⟩ := h
        rw [he] at ho
        cases ho
      · intro h
        rw [h (fun hn => hb (Or.inl hn))] at h1
        cases h1

end Sending

def ReachesWrite (r : Round) (round : ℕ) (e : Entry) : Prop :=
  e.1.revents &&& pollFailed = 0 ∧ e.1.revents &&& pollOut ≠ 0 ∧
    ((readEntry r round e).client.state = .sendingHeader ∨
      (readEntry r round e).client.state = .sendingBody) ∧
    (readEntry r round e).client.outBuf ≠ none

/-- What stops the sending of this visit, if anything does. -/
def stallOf (r : Round) (round : ℕ) (e : Entry) : Option Stall :=
  let c := (readEntry r round e).client
  sendStall (c.outputLength - c.outputSent) (r.sends c.fd)

def SendsThrough (r : Round) (round : ℕ) (e : Entry) : Prop :=
  ReachesWrite r round e → stallOf r round e = none

theorem visitEntry_ok_iff {r : Round} {round : ℕ} {e : Entry} :
    (∃ v, visitEntry r round e = .ok v) ↔ SendsThrough r round e := by
  by_cases h0 : e.1.revents = 0
  · have hn : ¬ ReachesWrite r round e := fun h => h.2.1 (by rw [h0]; decide)
    exact ⟨fun _ h => absurd h hn, fun _ => ⟨_, visitEntry_idle h0⟩⟩
  by_cases h1 : e.1.revents &&& pollFailed ≠ 0
  · exact ⟨fun _ h => absurd h.1 h1, fun _ => ⟨_, visitEntry_failed h0 h1⟩⟩
  have hd : (∃ v, visitEntry r round e = .ok v) ↔
      ∃ w, writeEntry r e.1.revents (readEntry r round e).client = .ok w := by
    rw [visitEntry_dispatch h0 h1]
    cases hw : writeEntry r e.1.revents (readEntry r round e).client with
    | error x => simp [dispatch_error hw]
    | ok w =>
      by_cases hc : w.client.state = .closing
      · simp [dispatch_closing hw hc]
      · simp [dispatch_kept hw hc]
  rw [hd]
  by_cases hs : e.1.revents &&& pollOut ≠ 0 ∧
      ((readEntry r round e).client.state = .sendingHeader ∨
        (readEntry r round e).client.state = .sendingBody)
  · have hw : writeEntry r e.1.revents (readEntry r round e).client =
        doWrite (r.sends (readEntry r round e).client.fd) (readEntry r round e).client := if_pos hs
    rw [hw, doWrite_ok_iff]
    exact ⟨fun h hr => h hr.2.2.2, fun h hb => h ⟨not_not.mp h1, hs.1, hs.2, hb⟩⟩
  · have hw : writeEntry r e.1.revents (readEntry r round e).client =
        .ok ⟨(readEntry r round e).client, []⟩ := if_neg hs
    exact ⟨fun _ hr => absurd ⟨hr.2.1, hr.2.2.1⟩ hs, fun _ => ⟨_, hw⟩⟩

section Others

variable {r : Round} {s s' : Server} {i j : ℕ} {v : Visit}

theorem kept_entries {e : Entry} (h1 : s.numListeners ≤ i) (h2 : i < s.table.fdCount)
    (heff : SlotEffect s i v s' j) (hk : v.kept = some e) :
    s'.entries = live s.table.slot s.numListeners i ++
      e :: live s.table.slot (i + 1) s.table.fdCount := by
  obtain ⟨-, hc, hs⟩ := heff.kept e hk
  rw [Server.entries, heff.listeners, hc, hs, live_update _ h1 h2]

theorem gone_entries (h1 : s.numListeners ≤ i) (h2 : i < s.table.fdCount)
    (heff : SlotEffect s i v s' j) (hk : v.kept = none) :
    s'.entries.Perm (live s.table.slot s.numListeners i ++
      live s.table.slot (i + 1) s.table.fdCount) := by
  obtain ⟨-, hc, hl⟩ := heff.gone hk
  have hb : live s'.table.slot s.numListeners i = live s.table.slot s.numListeners i :=
    live_congr fun l _ hlt => heff.below l hlt
  rw [Server.entries, heff.listeners, live_append h1 (by omega), hl, hb]
  exact (backToFront_perm _).append_left _

def others (s : Server) (i : ℕ) : List Entry :=
  live s.table.slot s.numListeners i ++ live s.table.slot (i + 1) s.table.fdCount

theorem slotEffect_others {e : Entry} (h1 : s.numListeners ≤ i) (h2 : i < s.table.fdCount)
    (heff : SlotEffect s i v s' j) (he : e ∈ s'.entries) : e ∈ others s i ∨ v.kept = some e := by
  rw [others, List.mem_append]
  cases hk : v.kept with
  | none => exact Or.inl (List.mem_append.mp ((gone_entries h1 h2 heff hk).mem_iff.mp he))
  | some x =>
    rw [kept_entries h1 h2 heff hk, List.mem_append, List.mem_cons] at he
    rcases he with he | he | he
    · exact Or.inl (Or.inl he)
    · exact Or.inr (congrArg some he.symm)
    · exact Or.inl (Or.inr he)

theorem others_entries {e : Entry} (h1 : s.numListeners ≤ i) (h2 : i < s.table.fdCount)
    (he : e ∈ others s i) : e ∈ s.entries := by
  rw [Server.entries, live_around h1 h2, List.mem_append, List.mem_cons]
  rcases List.mem_append.mp he with he | he
  · exact Or.inl he
  · exact Or.inr (Or.inr he)

theorem others_fd {e : Entry} (hs : s.Inv) (h1 : s.numListeners ≤ i) (h2 : i < s.table.fdCount)
    (he : e ∈ others s i) : e.fd ≠ (s.table.slot i).fd := by
  have hd := hs.distinct
  rw [live_around h1 h2, List.map_append, List.map_cons, List.nodup_middle, ← List.map_append]
    at hd
  intro hfd
  exact (List.nodup_cons.mp hd).1 (List.mem_map.mpr ⟨e, he, hfd⟩)

theorem slotEffect_mem {e : Entry} (h1 : s.numListeners ≤ i) (h2 : i < s.table.fdCount)
    (heff : SlotEffect s i v s' j) (he : e ∈ s'.entries) : e ∈ s.entries ∨ v.kept = some e :=
  (slotEffect_others h1 h2 heff he).imp_left (others_entries h1 h2)

theorem slotEffect_rest {e : Entry} (heff : SlotEffect s i v s' j)
    (he : e ∈ live s'.table.slot j s'.table.fdCount) :
    e ∈ live s.table.slot (i + 1) s.table.fdCount := by
  cases hk : v.kept with
  | none =>
    obtain ⟨hj, -, hl⟩ := heff.gone hk
    rw [hj, hl, (backToFront_perm _).mem_iff] at he
    exact he
  | some x =>
    obtain ⟨hj, hc, hs⟩ := heff.kept x hk
    rw [hj, hc, hs, live_update_of_gt x (Nat.lt_succ_self i)] at he
    exact he

theorem slotEffect_inv (hs : s.Inv) (h1 : s.numListeners ≤ i) (h2 : i < s.table.fdCount)
    (hv : VisitFacts r s.round (s.table.slot i) v) (heff : SlotEffect s i v s' j) : s'.Inv := by
  have hd := hs.distinct
  have hfits := hs.fits
  rw [live_around h1 h2] at hd
  have hroom : 0 < s'.table.fdSize := heff.size ▸ hs.room
  have hsub : (live s.table.slot s.numListeners i ++
      live s.table.slot (i + 1) s.table.fdCount).Sublist (live s.table.slot s.numListeners i ++
      s.table.slot i :: live s.table.slot (i + 1) s.table.fdCount) :=
    (List.sublist_cons_self _ _).append_left _
  have hcount : s.numListeners ≤ s'.table.fdCount ∧ s'.table.fdCount ≤ s'.table.fdSize := by
    rw [heff.size]
    cases hk : v.kept with
    | none =>
      have hc := (heff.gone hk).2.1
      omega
    | some x =>
      have hc := (heff.kept x hk).2.1
      omega
  refine ⟨heff.listeners ▸ hs.pos, heff.listeners ▸ hcount.1, hroom, hcount.2, ?_, ?_⟩
  · intro e he
    rcases slotEffect_mem h1 h2 heff he with h | h
    · exact hs.paired e h
    · obtain ⟨hf2, hf1⟩ := hv.kept e h
      rw [hf1, hs.paired (s.table.slot i) (mem_live.mpr ⟨i, h1, h2, rfl⟩)]
      exact hf2.symm
  · change (s'.entries.map Entry.fd).Nodup
    cases hk : v.kept with
    | none =>
      rw [((gone_entries h1 h2 heff hk).map Entry.fd).nodup_iff]
      exact List.Nodup.sublist (hsub.map _) hd
    | some x =>
      rw [kept_entries h1 h2 heff hk]
      simpa [(hv.kept x hk).1] using hd

theorem slotEffect_view (hs : s.Inv) (h1 : s.numListeners ≤ i) (h2 : i < s.table.fdCount)
    (hv : VisitFacts r s.round (s.table.slot i) v) (heff : SlotEffect s i v s' j) :
    s'.table.view s'.numListeners =
      Function.update (s.table.view s.numListeners) (s.table.clients i).fd v.kept := by
  have hd := hs.distinct
  have hd' := (slotEffect_inv hs h1 h2 hv heff).distinct
  rw [live_around h1 h2] at hd
  have hold : s.table.view s.numListeners = SlotArray.view Entry.fd
      (live s.table.slot s.numListeners i ++
        s.table.slot i :: live s.table.slot (i + 1) s.table.fdCount) := by
    rw [Table.view, live_around h1 h2]
  rw [hold]
  cases hk : v.kept with
  | none =>
    have hp := view_perm hd' (gone_entries h1 h2 heff hk)
    exact hp.trans (view_remove hd)
  | some x =>
    have he := congrArg (SlotArray.view Entry.fd) (kept_entries h1 h2 heff hk)
    exact he.trans (view_replace hd (hv.kept x hk).1)

end Others

/-- The states of the `for` loop in the round that `r` answers. -/
inductive LoopReach (r : Round) (s₀ : Server) : Server → ℕ → Prop
  | start : LoopReach r s₀ (s₀.polled r) 0
  | next {s s' : Server} {i j : ℕ} : LoopReach r s₀ s i → i < s.table.fdCount →
      visitSlot r s i = .ok (s', j) → LoopReach r s₀ s' j

/-- The table invariant, and that what the listeners from `i` on hand out is
not in use. -/
structure LoopInv (r : Round) (s : Server) (i : ℕ) : Prop where
  inv : s.Inv
  fresh : (s.entries.map Entry.fd ++ (registeredFrom r s i).map Accepted.fd).Nodup

section Loop

variable {r : Round} {s₀ s s' : Server} {i j : ℕ}

theorem loopInv_start (hs : s.Inv) (hk : FreshFds r s) : LoopInv r (s.polled r) 0 := by
  refine ⟨⟨hs.pos, hs.least, hs.room, hs.fits, polled_paired hs, ?_⟩, ?_⟩
  · change ((s.polled r).entries.map Entry.fd).Nodup
    rw [polled_fds]
    exact hs.distinct
  · rw [polled_fds]
    exact hk

theorem loopInv_listener (h : LoopInv r s i) (hi : i < s.numListeners)
    (hv : visitListener r s i = .ok s') : LoopInv r s' (i + 1) := by
  obtain ⟨new, hl, -, -, hnew, heff⟩ := visitListener_ok hv
  have hn := h.inv.least
  have hent : s'.entries = s.entries ++ new := by
    rw [Server.entries, hl]
    exact heff.live s.numListeners hn
  have hcongr : registeredFrom r s' (i + 1) = registeredFrom r s (i + 1) :=
    registeredFrom_congr hl fun l hlt => heff.below l (by omega)
  have hfresh :
      (s'.entries.map Entry.fd ++ (registeredFrom r s' (i + 1)).map Accepted.fd).Nodup := by
    rw [hent, hcongr, List.map_append, fresh_fds hnew, List.append_assoc, ← List.map_append,
      ← registeredFrom_succ hi]
    exact h.fresh
  have hfits := heff.fits h.inv.fits h.inv.room
  refine ⟨⟨hl ▸ h.inv.pos, ?_, hfits.2, hfits.1, ?_, hfresh.of_append_left⟩, hfresh⟩
  · rw [hl, heff.count]
    omega
  · change ∀ e ∈ s'.entries, _
    rw [hent]
    intro e he
    rcases List.mem_append.mp he with he | he
    · exact h.inv.paired e he
    · exact fresh_paired hnew e he

theorem registeredFrom_clients (hi : s.numListeners ≤ i) : registeredFrom r s i = [] := by
  rw [registeredFrom, Nat.sub_eq_zero_of_le hi]
  rfl

theorem loopInv_client (h : LoopInv r s i) (h1 : s.numListeners ≤ i) (h2 : i < s.table.fdCount)
    (hv : visitClient r s i = .ok (s', j)) : LoopInv r s' j := by
  have hpos := h.inv.pos
  obtain ⟨v, he, heff⟩ := visitClient_inv (by omega) h2 hv
  have hinv := slotEffect_inv h.inv h1 h2 (visitEntry_facts he) heff
  refine ⟨hinv, ?_⟩
  have hj : s'.numListeners ≤ j := by
    rw [heff.listeners]
    cases hk : v.kept with
    | none => rw [(heff.gone hk).1]; exact h1
    | some x => rw [(heff.kept x hk).1]; omega
  rw [registeredFrom_clients hj, List.map_nil, List.append_nil]
  exact hinv.distinct

/-- What holds at the start of a round and across its listener and client
iterations holds wherever its loop arrives. -/
theorem LoopReach.invariant {P : Server → ℕ → Prop} (hstart : P (s₀.polled r) 0)
    (hlistener : ∀ {s s' : Server} {i : ℕ}, LoopReach r s₀ s i → P s i → i < s.numListeners →
      visitListener r s i = .ok s' → P s' (i + 1))
    (hclient : ∀ {s s' : Server} {i j : ℕ}, LoopReach r s₀ s i → P s i → s.numListeners ≤ i →
      i < s.table.fdCount → visitClient r s i = .ok (s', j) → P s' j)
    (h : LoopReach r s₀ s i) : P s i := by
  induction h with
  | start => exact hstart
  | @next s s' i j hr hlt hv ih =>
    by_cases hi : i < s.numListeners
    · rw [visitSlot, if_pos hi] at hv
      cases hl : visitListener r s i with
      | error x =>
        rw [hl] at hv
        cases hv
      | ok s₁ =>
        rw [hl] at hv
        cases hv
        exact hlistener hr ih hi hl
    · rw [visitSlot, if_neg hi] at hv
      exact hclient hr ih (by omega) hlt hv

theorem loopReach_inv (hs : s₀.Inv) (hk : FreshFds r s₀) (h : LoopReach r s₀ s i) :
    LoopInv r s i :=
  LoopReach.invariant (loopInv_start hs hk) (fun _ hi hlt hv => loopInv_listener hi hlt hv)
    (fun _ hi h1 h2 hv => loopInv_client hi h1 h2 hv) h

theorem forLoop_reach {fuel : ℕ} (h : LoopReach r s₀ s i) (hf : forLoop r fuel s i = .ok s') :
    ∃ j, LoopReach r s₀ s' j := by
  induction fuel generalizing s i with
  | zero =>
    rw [forLoop] at hf
    split_ifs at hf
    cases hf
    exact ⟨i, h⟩
  | succ fuel ih =>
    rw [forLoop] at hf
    split_ifs at hf with hlt
    · cases hv : visitSlot r s i with
      | error x =>
        rw [hv] at hf
        cases hf
      | ok q =>
        rw [hv] at hf
        exact ih (.next h hlt hv) hf
    · cases hf
      exact ⟨i, h⟩

/-- Clients name streams of their own that are closed, and the open ones stem
from a visit that has been made. -/
structure Streams (s : Server) (i : ℕ) (held : Multiset Handle) : Prop where
  own : ∀ e ∈ s.entries, NamesOwn e
  past : ∀ x ∈ held, x.round < s.round ∨ s.numListeners ≤ i ∧ x.round = s.round ∧
    ∀ e ∈ live s.table.slot i s.table.fdCount, e.fd ≠ x.fd
  unnamed : ∀ x ∈ held, ∀ e ∈ s.entries, e.2.filePtr ≠ some x

def StreamInv (s : Server) (i : ℕ) : Prop :=
  ∀ held, settle 0 (handles s.trace) = some held → Streams s i held

theorem StreamInv.polled (h : StreamInv s 0) : StreamInv (s.polled r) 0 := by
  intro held hset
  have hs := h held hset
  refine ⟨fun e he => ?_, fun x hx => ?_, fun x hx e he => ?_⟩
  · obtain ⟨e₀, h0, m, rfl⟩ := polled_entry he
    exact hs.own e₀ h0
  · rcases hs.past x hx with hlt | ⟨hn, hr, hfd⟩
    · exact Or.inl hlt
    · refine Or.inr ⟨hn, hr, fun e he => ?_⟩
      obtain ⟨l, h1, h2, rfl⟩ := mem_live.mp he
      exact hfd (s.table.slot l) (mem_live.mpr ⟨l, h1, h2, rfl⟩)
  · obtain ⟨e₀, h0, m, rfl⟩ := polled_entry he
    exact hs.unnamed x hx e₀ h0

theorem StreamInv.listener (hn : s.numListeners ≤ s.table.fdCount) (hi : i < s.numListeners)
    (h : StreamInv s i) (hv : visitListener r s i = .ok s') : StreamInv s' (i + 1) := by
  obtain ⟨new, hl, hr, ht, hnew, heff⟩ := visitListener_ok hv
  have hfresh : ∀ e ∈ new, e.2.filePtr = none := by
    refine fresh_all (fun a _ e hf => ?_) hnew
    obtain ⟨old, rfl⟩ := hf
    rfl
  have hent : ∀ e ∈ s'.entries, e ∈ s.entries ∨ e ∈ new := by
    intro e he
    rw [Server.entries, hl, heff.live s.numListeners hn] at he
    exact List.mem_append.mp he
  intro held hset
  rw [ht] at hset
  have hs := h held hset
  refine ⟨fun e he => ?_, fun x hx => ?_, fun x hx e he => ?_⟩
  · rcases hent e he with he | he
    · exact hs.own e he
    · intro x hx
      rw [hfresh e he] at hx
      cases hx
  · rcases hs.past x hx with hlt | ⟨hle, -⟩
    · exact Or.inl (hr ▸ hlt)
    · exact absurd hle (Nat.not_le_of_lt hi)
  · rcases hent e he with he | he
    · exact hs.unnamed x hx e he
    · rw [hfresh e he]
      exact (Option.some_ne_none x).symm

theorem visitClient_survives (h : StreamInv s i) (hlive : Survives s.trace)
    (h1 : s.numListeners ≤ i) (h2 : i < s.table.fdCount) {v : Visit}
    (hv : visitEntry r s.round (s.table.slot i) = .ok v) (heff : SlotEffect s i v s' j) :
    Survives s'.trace ↔ ClosesOnce r s.round (s.table.slot i) := by
  obtain ⟨held, hset⟩ := Option.isSome_iff_exists.mp hlive
  have hs := h held hset
  have hown : NamesOwn (s.table.slot i) := hs.own _ (mem_live.mpr ⟨i, h1, h2, rfl⟩)
  rw [Survives, heff.trace, handles_append, settle_append, hset, Option.bind_some]
  constructor
  · intro hsome
    by_contra hc
    obtain ⟨x, hx, hnone⟩ := visitEntry_twice hown hc hv
    have hfree : x ∉ held := by
      intro hm
      rcases hx with hx | hx
      · exact hs.unnamed x hm _ (mem_live.mpr ⟨i, h1, h2, rfl⟩) hx
      · rcases hs.past x hm with hlt | ⟨-, -, hfd⟩
        · exact absurd hx.1 (Nat.ne_of_lt hlt)
        · exact hfd _ (mem_live.mpr ⟨i, le_rfl, h2, rfl⟩) hx.2.symm
    rw [hnone held hfree] at hsome
    cases hsome
  · intro hc
    obtain ⟨leaked, hmoves, -⟩ := visitEntry_once hown hc hv
    have hall := hmoves held
    rw [zero_add] at hall
    rw [hall]
    rfl

theorem StreamInv.client (hi : LoopInv r s i) (h : StreamInv s i) (h1 : s.numListeners ≤ i)
    (h2 : i < s.table.fdCount) (hv : visitClient r s i = .ok (s', j)) : StreamInv s' j := by
  have hpos := hi.inv.pos
  obtain ⟨v, he, heff⟩ := visitClient_inv (by omega) h2 hv
  have hmem : s.table.slot i ∈ s.entries := mem_live.mpr ⟨i, h1, h2, rfl⟩
  have hj : i ≤ j := by
    cases hk : v.kept with
    | none => rw [(heff.gone hk).1]
    | some x => rw [(heff.kept x hk).1]; omega
  intro held' hset'
  have hlive' : Survives s'.trace := by rw [Survives, hset']; rfl
  have hset := hset'
  rw [heff.trace, handles_append, settle_append] at hset
  obtain ⟨held, hset, hvisit⟩ := Option.bind_eq_some_iff.mp hset
  have hs := h held hset
  have hlive : Survives s.trace := by rw [Survives, hset]; rfl
  have hc := (visitClient_survives h hlive h1 h2 he heff).mp hlive'
  obtain ⟨leaked, hmoves, hleak, hkept⟩ := visitEntry_once (hs.own _ hmem) hc he
  have hall := hmoves held
  rw [zero_add, hvisit, Option.some.injEq] at hall
  -- a stream is not one of this visit and held already
  have hnew : ∀ x ∈ held, ¬ x.Of s.round (s.table.slot i).fd := by
    intro x hx hof
    rcases hs.past x hx with hlt | ⟨-, -, hfd⟩
    · exact absurd hof.1 (Nat.ne_of_lt hlt)
    · exact hfd _ (mem_live.mpr ⟨i, le_rfl, h2, rfl⟩) hof.2.symm
  refine ⟨fun e hm => ?_, fun x hx => ?_, fun x hx e hm hn => ?_⟩
  · rcases slotEffect_mem h1 h2 heff hm with hold | hk
    · exact hs.own e hold
    · exact visitEntry_own (hs.own _ hmem) he hk
  · rw [heff.listeners, heff.round]
    rcases Multiset.mem_add.mp (hall ▸ hx) with hx | hx
    · refine Or.inr ⟨h1.trans hj, (hleak x hx).1, fun e hm => ?_⟩
      have ho : e ∈ others s i := List.mem_append_right _ (slotEffect_rest heff hm)
      rw [(hleak x hx).2]
      exact others_fd hi.inv h1 h2 ho
    · rcases hs.past x hx with hlt | ⟨hle, hr, hfd⟩
      · exact Or.inl hlt
      · refine Or.inr ⟨h1.trans hj, hr, fun e hm => hfd e ?_⟩
        rw [live_cons h2]
        exact List.mem_cons_of_mem _ (slotEffect_rest heff hm)
  · rcases slotEffect_others h1 h2 heff hm with ho | hk
    · rcases Multiset.mem_add.mp (hall ▸ hx) with hx | hx
      · have hfd := (hs.own e (others_entries h1 h2 ho) x hn).1
        exact others_fd hi.inv h1 h2 ho (hfd.symm.trans (hleak x hx).2)
      · exact hs.unnamed x hx e (others_entries h1 h2 ho) hn
    · obtain ⟨hnot, hwhose⟩ := hkept e hk x hn
      rcases Multiset.mem_add.mp (hall ▸ hx) with hx | hx
      · exact hnot hx
      · rcases hwhose with hwas | hof
        · exact hs.unnamed x hx _ hmem hwas
        · exact hnew x hx hof

theorem loopReach_streams (hs : s₀.Inv) (hk : FreshFds r s₀) (h0 : StreamInv s₀ 0)
    (h : LoopReach r s₀ s i) : StreamInv s i :=
  LoopReach.invariant h0.polled
    (fun hr hq hi hv => hq.listener (loopReach_inv hs hk hr).inv.least hi hv)
    (fun hr hq h1 h2 hv => hq.client (loopReach_inv hs hk hr) h1 h2 hv) h

theorem step_streams {a : PollAnswer} (hs : s.Inv) (hk : NewFdsFresh s a) (hq : StreamInv s 0)
    (h : s.step a = .ok s') : StreamInv s' 0 := by
  cases a with
  | eintr =>
    cases h
    exact hq
  | fatal => cases h
  | ready r =>
    have hround : pollRound s r = .ok s' := h
    rw [pollRound] at hround
    cases hf : forLoop r (loopFuel s r) (s.polled r) 0 with
    | error x =>
      rw [hf] at hround
      cases hround
    | ok t =>
      rw [hf] at hround
      cases hround
      obtain ⟨j, hj⟩ := forLoop_reach .start hf
      intro held hset
      have ht := loopReach_streams hs hk hq hj held hset
      refine ⟨ht.own, fun x hx => Or.inl ?_, ht.unnamed⟩
      rcases ht.past x hx with hlt | ⟨-, hr, -⟩
      · exact Nat.lt_succ_of_lt hlt
      · exact Nat.lt_succ_of_le hr.le

theorem setup_streams {pfds : ℕ → PollFd} {clients : ℕ → Client} {v4 v6 : Option ℕ}
    (h : setup pfds clients v4 v6 = .ok s) : StreamInv s 0 := by
  intro held hset
  rw [setup_trace h] at hset
  cases hset
  exact ⟨(setup_entrywise h).all, (fun x hx => absurd hx (Multiset.notMem_zero x)),
    fun x hx => absurd hx (Multiset.notMem_zero x)⟩

theorem eventLoop_streams {pfds : ℕ → PollFd} {clients : ℕ → Client} {v4 v6 : Option ℕ}
    {answers : List PollAnswer} (h0 : setup pfds clients v4 v6 = .ok s₀)
    (hf : Run.Along Server.step NewFdsFresh s₀ answers) (h : eventLoop s₀ answers = .ok s) :
    s.Inv ∧ StreamInv s 0 :=
  Run.invariant (I := fun s => s.Inv ∧ StreamInv s 0)
    (fun _ _ _ hi hk hstep => ⟨step_inv hi.1 hk hstep, step_streams hi.1 hk hi.2 hstep⟩)
    ⟨setup_inv h0, setup_streams h0⟩ hf h

def Interrupted (r : Round) (round : ℕ) (e : Entry) : Prop :=
  ReachesWrite r round e ∧ (stallOf r round e = some (.fail .EAGAIN) ∨
    stallOf r round e = some (.fail .EWOULDBLOCK) ∨ stallOf r round e = some (.fail .EINTR))

/-- The loop goes on behind this client's event and no stream has been closed
twice, the other clients and the listeners are as they were, and a client whose
sending was interrupted is still there with the rest of its response. -/
def Isolated (r : Round) (s : Server) (i : ℕ) : Prop :=
  ∃ s' j, visitClient r s i = .ok (s', j) ∧ Survives s'.trace ∧
    s'.numListeners = s.numListeners ∧
    (∀ l < s.numListeners, s'.table.slot l = s.table.slot l) ∧
    (∀ fd, fd ≠ (s.table.clients i).fd →
      s'.table.view s'.numListeners fd = s.table.view s.numListeners fd) ∧
    (Interrupted r s.round (s.table.slot i) → ∃ e n,
      s'.table.view s'.numListeners (s.table.clients i).fd = some e ∧
      (e.2.state = .sendingHeader ∨ e.2.state = .sendingBody) ∧
      unsent e.2 = (unsent (readEntry r s.round (s.table.slot i)).client).drop n)

theorem isolated_iff (hs : s.Inv) (hq : StreamInv s i) (hlive : Survives s.trace)
    (h1 : s.numListeners ≤ i) (h2 : i < s.table.fdCount) :
    Isolated r s i ↔ SendsThrough r s.round (s.table.slot i) ∧
      ClosesOnce r s.round (s.table.slot i) := by
  have hpos := hs.pos
  constructor
  · intro h
    obtain ⟨s', j, hv, hlive', -⟩ := h
    obtain ⟨v, hv, heff⟩ := visitClient_inv (by omega) h2 hv
    exact ⟨visitEntry_ok_iff.mp ⟨v, hv⟩, (visitClient_survives hq hlive h1 h2 hv heff).mp hlive'⟩
  · intro h
    obtain ⟨v, hv⟩ := visitEntry_ok_iff.mpr h.1
    obtain ⟨s', j, hok, heff⟩ := visitClient_ok (by omega) h2 hv
    refine ⟨s', j, hok, (visitClient_survives hq hlive h1 h2 hv heff).mpr h.2, heff.listeners,
      fun l hl => heff.below l (by omega), ?_, ?_⟩
    · intro fd hfd
      rw [slotEffect_view hs h1 h2 (visitEntry_facts hv) heff, Function.update_of_ne hfd]
    · intro hint
      have hnone := h.1 hint.1
      rcases hint.2 with hx | hx | hx <;> rw [hnone] at hx <;> cases hx

theorem round_survives (hs : s.Inv) (hq : StreamInv s 0) (hlive : Survives s.trace)
    (hall : ∀ e ∈ (s.polled r).entries, ClosesOnce r s.round e) (h : pollRound s r = .ok s') :
    Survives s'.trace := by
  obtain ⟨held, hset⟩ := Option.isSome_iff_exists.mp hlive
  obtain ⟨s₁, new, order, rfl, he⟩ := pollRound_ok hs.pos hs.least h
  change Survives s₁.trace
  rw [Survives, he.trace, handles_append, settle_append, hset, Option.bind_some, handles_flatMap]
  refine settle_flatMap_isSome (fun e ho => ?_) held
  obtain ⟨v, hv⟩ := he.visited e ho
  rw [(keptBy_ok hv).2]
  rcases (mem_order he).mp ho with hm | hm
  · obtain ⟨e₀, h0, m, rfl⟩ := polled_entry hm
    have hown : NamesOwn ({ e₀.1 with revents := m }, e₀.2) := (hq held hset).own e₀ h0
    obtain ⟨leaked, hmoves, -⟩ := visitEntry_once hown (hall _ hm) hv
    exact ⟨leaked, hmoves⟩
  · rw [visitEntry_idle (fresh_revents he.fresh e hm)] at hv
    cases hv
    exact ⟨0, .nil 0⟩

theorem eventLoop_survives {pfds : ℕ → PollFd} {clients : ℕ → Client} {v4 v6 : Option ℕ}
    {answers : List PollAnswer} (h0 : setup pfds clients v4 v6 = .ok s₀)
    (hf : Run.Along Server.step NewFdsFresh s₀ answers)
    (hc : Run.Along Server.step (EachEntry ClosesOnce) s₀ answers)
    (h : eventLoop s₀ answers = .ok s) : Survives s.trace := by
  have hstart : Survives s₀.trace := by
    rw [setup_trace h0]
    rfl
  refine (Run.invariant (I := fun s => (s.Inv ∧ StreamInv s 0) ∧ Survives s.trace)
    (fun s a s' hi hp hstep => ⟨⟨step_inv hi.1.1 hp.1 hstep,
      step_streams hi.1.1 hp.1 hi.1.2 hstep⟩, ?_⟩)
    ⟨⟨setup_inv h0, setup_streams h0⟩, hstart⟩ (hf.both hc) h).2
  cases a with
  | eintr =>
    cases hstep
    exact hi.2
  | fatal => cases hstep
  | ready r => exact round_survives hi.1.1 hi.1.2 hi.2 hp.2 hstep

end Loop

/-- In every state that a round of a run reaches alive, a client's event is
isolated exactly if each of its sends takes at least one byte and no stream is
closed twice; and a round in which this holds of every client, and in which the
table can grow, does not end the process. A run is alive wherever it arrives if
none of its visits closes a stream twice. -/
theorem client_event_isolated_iff {pfds : ℕ → PollFd} {clients : ℕ → Client} {v4 v6 : Option ℕ}
    {s₀ s : Server} {answers : List PollAnswer} {r : Round}
    (h0 : setup pfds clients v4 v6 = .ok s₀)
    (hf : Run.Along Server.step NewFdsFresh s₀ answers)
    (h : eventLoop s₀ answers = .ok s) (hk : FreshFds r s) :
    (∀ t i, LoopReach r s t i → Survives t.trace → t.numListeners ≤ i → i < t.table.fdCount →
      (Isolated r t i ↔ SendsThrough r t.round (t.table.slot i) ∧
        ClosesOnce r t.round (t.table.slot i))) ∧
    (Survives s.trace → ¬ GrowthFails r s →
      (∀ e ∈ (s.polled r).entries, SendsThrough r s.round e ∧ ClosesOnce r s.round e) →
      ∃ s', pollRound s r = .ok s' ∧ Survives s'.trace) ∧
    (Run.Along Server.step (EachEntry ClosesOnce) s₀ answers → Survives s.trace) := by
  obtain ⟨hs, hq⟩ := eventLoop_streams h0 hf h
  refine ⟨fun t i ht hlive h1 h2 => isolated_iff (loopReach_inv hs hk ht).inv
    (loopReach_streams hs hk hq ht) hlive h1 h2, ?_, fun hc => eventLoop_survives h0 hf hc h⟩
  intro hlive hg hall
  cases hr : pollRound s r with
  | ok s' => exact ⟨s', rfl, round_survives hs hq hlive (fun e he => (hall e he).2) hr⟩
  | error x =>
    obtain ⟨y, -, hwhy⟩ := pollRound_error hs.pos hs.least hr
    rcases hwhy with hwhy | ⟨e, he, hex⟩
    · exact absurd hwhy hg
    · obtain ⟨v, hv⟩ := visitEntry_ok_iff.mpr (hall e he).1
      rw [hv] at hex
      cases hex

def twoStaged : List PollAnswer :=
  [.ready (acceptRound [7, 8]), .ready (readRound emptyEnv getRoot)]

theorem loopReach_first {r : Round} {s : Server} (hn : s.numListeners = 1)
    (hc : 0 < s.table.fdCount) (h0 : r.revents 0 = 0) : LoopReach r s (s.polled r) 1 := by
  refine .next .start hc ?_
  have hp : ((s.polled r).table.pfds 0).revents = 0 := by simp [Server.polled, hc, h0]
  have hv : visitListener r (s.polled r) 0 = .ok (s.polled r) := by
    rw [visitListener, hp]
    exact if_neg (by decide)
  have hpos : 0 < (s.polled r).numListeners := by
    change 0 < s.numListeners
    omega
  rw [visitSlot, if_pos hpos, hv]

theorem client_event_isolated_iff_sent :
    ∃ s, eventLoop startServer twoStaged = .ok s ∧ Survives s.trace ∧
      LoopReach (writeRound [.ret 10000]) s (s.polled (writeRound [.ret 10000])) 1 ∧
      Isolated (writeRound [.ret 10000]) (s.polled (writeRound [.ret 10000])) 1 := by
  obtain ⟨s, hs, ht⟩ := Run.arrives_iff.mp (show Run.arrives (fun s => decide
    (s.numListeners = 1 ∧ 1 < s.table.fdCount ∧ NewFdsFresh s (.ready (writeRound [.ret 10000])) ∧
      stallOf (writeRound [.ret 10000]) s.round
        ((s.polled (writeRound [.ret 10000])).table.slot 1) = none ∧
      ClosesOnce (writeRound [.ret 10000]) s.round
        ((s.polled (writeRound [.ret 10000])).table.slot 1)))
    (eventLoop startServer twoStaged) = true by decide +kernel)
  obtain ⟨hn, hc, hk, hst, honce⟩ := of_decide_eq_true ht
  have hr := loopReach_first (r := writeRound [.ret 10000]) hn (by omega) rfl
  have hf : Run.Along Server.step NewFdsFresh startServer twoStaged := by decide +kernel
  have hall : Run.Along Server.step (EachEntry ClosesOnce) startServer twoStaged := by
    decide +kernel
  obtain ⟨hiff, -, halive⟩ := client_event_isolated_iff setup_startServer hf hs hk
  have hlive := halive hall
  exact ⟨s, hs, hlive, hr, (hiff _ 1 hr hlive hn.le hc).mpr ⟨fun _ => hst, honce⟩⟩

/-- The first of two clients meets a full socket; and a client to which a file
has been served is closed. -/
theorem client_event_ends_process :
    (∃ s, eventLoop startServer twoStaged = .ok s ∧ s.table.fdCount = 3 ∧
      LoopReach (writeRound [.fail .EAGAIN]) s (s.polled (writeRound [.fail .EAGAIN])) 1 ∧
      visitClient (writeRound [.fail .EAGAIN]) (s.polled (writeRound [.fail .EAGAIN])) 1 =
        .error .failure ∧
      ¬ Isolated (writeRound [.fail .EAGAIN]) (s.polled (writeRound [.fail .EAGAIN])) 1) ∧
    ∃ s, eventLoop startServer ((serveOnce fileEnv getFile).take 2) = .ok s ∧
      LoopReach (writeRound [.ret 1000]) s (s.polled (writeRound [.ret 1000])) 1 ∧
      Survives s.trace ∧
      ¬ Isolated (writeRound [.ret 1000]) (s.polled (writeRound [.ret 1000])) 1 := by
  refine ⟨?_, ?_⟩
  · obtain ⟨s, hs, ht⟩ := Run.arrives_iff.mp (show Run.arrives (fun s => decide
      (s.numListeners = 1 ∧ s.table.fdCount = 3 ∧ visitEntry (writeRound [.fail .EAGAIN]) s.round
        ((s.polled (writeRound [.fail .EAGAIN])).table.slot 1) = .error .failure))
      (eventLoop startServer twoStaged) = true by decide +kernel)
    obtain ⟨hn, hc, he⟩ := of_decide_eq_true ht
    have hv := visitClient_error (s := s.polled (writeRound [.fail .EAGAIN])) (i := 1) he
    refine ⟨s, hs, hc, loopReach_first hn (by omega) rfl, hv, ?_⟩
    intro h
    obtain ⟨s', j, hok, -⟩ := h
    rw [hv] at hok
    cases hok
  · obtain ⟨s, hs, ht⟩ := Run.arrives_iff.mp (show Run.arrives (fun s => decide
      (s.numListeners = 1 ∧ 1 < s.table.fdCount ∧ Survives s.trace ∧
        NewFdsFresh s (.ready (writeRound [.ret 1000])) ∧
        ¬ ClosesOnce (writeRound [.ret 1000]) s.round
          ((s.polled (writeRound [.ret 1000])).table.slot 1)))
      (eventLoop startServer ((serveOnce fileEnv getFile).take 2)) = true by decide +kernel)
    obtain ⟨hn, hc, hlive, hk, htwice⟩ := of_decide_eq_true ht
    have hf : Run.Along Server.step NewFdsFresh startServer
        ((serveOnce fileEnv getFile).take 2) := by decide +kernel
    have hr := loopReach_first (r := writeRound [.ret 1000]) hn (by omega) rfl
    obtain ⟨hinv, hq⟩ := eventLoop_streams setup_startServer hf hs
    have hiff : Isolated (writeRound [.ret 1000]) (s.polled (writeRound [.ret 1000])) 1 ↔ _ :=
      isolated_iff (loopReach_inv hinv hk hr).inv (loopReach_streams hinv hk hq hr) hlive hn.le hc
    exact ⟨s, hs, hr, hlive, fun h => htwice (hiff.mp h).2⟩

end SimpleServer
