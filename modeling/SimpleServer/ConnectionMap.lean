import SimpleServer.Reachable
import SimpleServer.Unstamped

/-!
# The connection table as a finite map

Behind the listeners the two arrays hold a map from descriptors to records.
`add_to_lists` inserts a key, `close_conn` deletes one, and writing a client
slot in place updates one. An inserted record is the same for every previous
occupant of the slot, up to the address that `accept_new_conn` then writes and
the `timestamp` that no visit reads.
-/

namespace SimpleServer

open CString FileTree SlotArray

def Table.view (n : ℕ) (t : Table) : ℕ → Option Entry :=
  SlotArray.view Entry.fd (live t.slot n t.fdCount)

/-- The record of a connection that has just been added. -/
def freshEntry (newfd : ℕ) (timestamp clientAddr : Bytes) : Entry :=
  (⟨newfd, pollIn, 0⟩,
    { inBuf := none
      outBuf := none
      filePtr := none
      fileSize := 0
      bodySent := 0
      inputLength := 0
      inputCapacity := 0
      outputLength := 0
      outputCapacity := 0
      outputSent := 0
      headerLen := 0
      bodyLen := 0
      fd := newfd
      state := .reading
      respVal := .numClientResp
      timestamp := timestamp
      clientAddr := clientAddr })

inductive TableOp where
  | add (newfd : ℕ) (g : Growth)
  | close (i : ℕ)
  | update (i : ℕ) (p : PollFd) (c : Client)

def TableOp.apply (t : Table) : TableOp → Except ExitStatus Table
  | .add newfd g =>
    match addToLists newfd g t with
    | .error e => .error e
    | .ok (_, t') => .ok t'
  | .close i => .ok (closeConn i t).1
  | .update i p c =>
    .ok { t with
      pfds := Function.update t.pfds i p
      clients := Function.update t.clients i c }

/-- New descriptors are not in use, `close_conn` gets a client slot, and an
update keeps the descriptor of its slot. -/
def TableOp.Legal (n : ℕ) (t : Table) : TableOp → Prop
  | .add newfd _ => ∀ i < t.fdCount, (t.pfds i).fd ≠ newfd
  | .close i => n ≤ i ∧ i < t.fdCount
  | .update i p c => n ≤ i ∧ i < t.fdCount ∧ p.fd = (t.pfds i).fd ∧ c.fd = (t.clients i).fd

instance (n : ℕ) (t : Table) : (op : TableOp) → Decidable (op.Legal n t)
  | .add newfd _ => inferInstanceAs (Decidable (∀ i < t.fdCount, (t.pfds i).fd ≠ newfd))
  | .close i => inferInstanceAs (Decidable (n ≤ i ∧ i < t.fdCount))
  | .update i p c => inferInstanceAs (Decidable
      (n ≤ i ∧ i < t.fdCount ∧ p.fd = (t.pfds i).fd ∧ c.fd = (t.clients i).fd))

/-- What an operation does to the map. -/
def TableOp.Refines (n : ℕ) (t t' : Table) : TableOp → Prop
  | .add newfd _ => t.view n newfd = none ∧ ∃ timestamp clientAddr,
      t'.view n = Function.update (t.view n) newfd (some (freshEntry newfd timestamp clientAddr))
  | .close i => t.view n (t.clients i).fd = some (t.slot i) ∧
      t'.view n = Function.update (t.view n) (t.clients i).fd none
  | .update i p c => t.view n (t.clients i).fd = some (t.slot i) ∧
      t'.view n = Function.update (t.view n) (t.clients i).fd (some (p, c))

section Operations

variable {n i : ℕ} {t t' : Table}

theorem live_around (h1 : n ≤ i) (h2 : i < t.fdCount) :
    live t.slot n t.fdCount =
      live t.slot n i ++ t.slot i :: live t.slot (i + 1) t.fdCount := by
  rw [live_append h1 h2.le, live_cons h2]

theorem view_slot (ht : t.Inv n) (h1 : n ≤ i) (h2 : i < t.fdCount) :
    t.view n (t.clients i).fd = some (t.slot i) :=
  (view_eq_some ht.distinct).mpr ⟨mem_live.mpr ⟨i, h1, h2, rfl⟩, rfl⟩

/-- What an operation leaves of the table's other parts. -/
structure Keeps (n : ℕ) (t t' : Table) : Prop where
  inv : t'.Inv n
  below : ∀ l < n, t'.slot l = t.slot l

theorem add_live {newfd idx : ℕ} {g : Growth} (ht : t.Inv n)
    (h : addToLists newfd g t = .ok (idx, t')) :
    live t'.slot n t'.fdCount = live t.slot n t.fdCount ++
      [freshEntry newfd (t.clients t.fdCount).timestamp (t.clients t.fdCount).clientAddr] := by
  obtain ⟨-, hc, hs, -⟩ := addToLists_ok h
  rw [hs, hc, live_push _ ht.least]
  rfl

theorem newfd_notMem {newfd : ℕ} (ht : t.Inv n) (hl : ∀ i < t.fdCount, (t.pfds i).fd ≠ newfd) :
    newfd ∉ (live t.slot n t.fdCount).map Entry.fd := by
  intro hm
  obtain ⟨e, he, hfd⟩ := List.mem_map.mp hm
  have hp := ht.paired e he
  obtain ⟨i, -, hi, rfl⟩ := mem_live.mp he
  exact hl i hi (hp.trans hfd)

theorem add_keeps {newfd idx : ℕ} {g : Growth} (ht : t.Inv n)
    (hl : ∀ i < t.fdCount, (t.pfds i).fd ≠ newfd)
    (h : addToLists newfd g t = .ok (idx, t')) : Keeps n t t' := by
  have hlive := add_live ht h
  have hnew := newfd_notMem ht hl
  obtain ⟨-, hc, hs, hz⟩ := addToLists_ok h
  have hroom := ht.room
  have hfits := ht.fits
  have hleast := ht.least
  refine ⟨⟨ht.pos, by omega, ?_, ?_, ?_, ?_⟩, ?_⟩
  · rw [hz]
    split_ifs <;> omega
  · rw [hz, hc]
    split_ifs <;> omega
  · intro e he
    rw [hlive] at he
    rcases List.mem_append.mp he with he | he
    · exact ht.paired e he
    · rw [List.mem_singleton.mp he]
      rfl
  · rw [hlive, List.map_append, List.nodup_append]
    refine ⟨ht.distinct, List.nodup_singleton _, ?_⟩
    intro a ha b hb hab
    have hfd : b = newfd := by simpa [Entry.fd, freshEntry] using hb
    exact hnew (hfd ▸ hab ▸ ha)
  · intro l hlt
    rw [hs, Function.update_of_ne (by omega)]

theorem close_live (ht : t.Inv n) (h1 : n ≤ i) (h2 : i < t.fdCount) :
    (closeConn i t).1.fdCount = t.fdCount - 1 ∧ (closeConn i t).1.fdSize = t.fdSize ∧
      (∀ l < i, (closeConn i t).1.slot l = t.slot l) ∧
      live (closeConn i t).1.slot n (closeConn i t).1.fdCount =
        live t.slot n i ++ backToFront (live t.slot (i + 1) t.fdCount) := by
  have hpos := ht.pos
  obtain ⟨hc, hz, hb, hl⟩ := closeConn_slot (i := i) (by omega) h2 t
    (Function.update_eq_self i t.slot).symm rfl
  refine ⟨hc, hz, hb, ?_⟩
  rw [hc, live_append h1 (by omega), hl]
  congr 1
  exact live_congr fun l _ hlt => hb l hlt

theorem close_perm (ht : t.Inv n) (h1 : n ≤ i) (h2 : i < t.fdCount) :
    (live (closeConn i t).1.slot n (closeConn i t).1.fdCount).Perm
      (live t.slot n i ++ live t.slot (i + 1) t.fdCount) := by
  rw [(close_live ht h1 h2).2.2.2]
  exact (backToFront_perm _).append_left _

theorem close_keeps (ht : t.Inv n) (h1 : n ≤ i) (h2 : i < t.fdCount) :
    Keeps n t (closeConn i t).1 := by
  obtain ⟨hc, hz, hb, -⟩ := close_live ht h1 h2
  have hperm := close_perm ht h1 h2
  have hsub : (live t.slot n i ++ live t.slot (i + 1) t.fdCount).Sublist
      (live t.slot n t.fdCount) := by
    rw [live_around h1 h2]
    exact (List.sublist_cons_self _ _).append_left _
  have hfits := ht.fits
  refine ⟨⟨ht.pos, by omega, by rw [hz]; exact ht.room, by omega, ?_, ?_⟩, ?_⟩
  · intro e he
    exact ht.paired e (hsub.subset (hperm.mem_iff.mp he))
  · rw [(hperm.map Entry.fd).nodup_iff]
    exact List.Nodup.sublist (hsub.map _) ht.distinct
  · intro l hlt
    exact hb l (by omega)

theorem close_view (ht : t.Inv n) (h1 : n ≤ i) (h2 : i < t.fdCount) :
    (closeConn i t).1.view n = Function.update (t.view n) (t.clients i).fd none := by
  have hd := ht.distinct
  rw [live_around h1 h2] at hd
  rw [Table.view, view_perm (close_keeps ht h1 h2).inv.distinct (close_perm ht h1 h2),
    view_remove hd, Table.view, live_around h1 h2]
  rfl

theorem update_live (p : PollFd) (c : Client) (h1 : n ≤ i) (h2 : i < t.fdCount) :
    live (⟨Function.update t.pfds i p, Function.update t.clients i c, t.fdCount, t.fdSize⟩ :
        Table).slot n t.fdCount =
      live t.slot n i ++ (p, c) :: live t.slot (i + 1) t.fdCount := by
  rw [slot_update, live_update _ h1 h2]

theorem update_keeps {p : PollFd} {c : Client} (ht : t.Inv n) (h1 : n ≤ i) (h2 : i < t.fdCount)
    (hp : p.fd = (t.pfds i).fd) (hc : c.fd = (t.clients i).fd) :
    Keeps n t ⟨Function.update t.pfds i p, Function.update t.clients i c, t.fdCount, t.fdSize⟩ := by
  have hpair := ht.paired
  have hd := ht.distinct
  rw [live_around h1 h2] at hpair hd
  refine ⟨⟨ht.pos, ht.least, ht.room, ht.fits, ?_, ?_⟩, ?_⟩
  · intro e he
    rw [update_live p c h1 h2] at he
    rcases List.mem_append.mp he with he | he
    · exact hpair e (List.mem_append_left _ he)
    · rcases List.mem_cons.mp he with he | he
      · rw [he, hp, hc]
        exact hpair (t.slot i) (List.mem_append_right _ List.mem_cons_self)
      · exact hpair e (List.mem_append_right _ (List.mem_cons_of_mem _ he))
  · rw [update_live p c h1 h2]
    have hf : Entry.fd (p, c) = Entry.fd (t.slot i) := hc
    simpa [hf] using hd
  · intro l hlt
    rw [slot_update, Function.update_of_ne (by omega)]

theorem update_view {p : PollFd} {c : Client} (ht : t.Inv n) (h1 : n ≤ i) (h2 : i < t.fdCount)
    (hc : c.fd = (t.clients i).fd) :
    (⟨Function.update t.pfds i p, Function.update t.clients i c, t.fdCount, t.fdSize⟩ :
        Table).view n = Function.update (t.view n) (t.clients i).fd (some (p, c)) := by
  have hd := ht.distinct
  rw [live_around h1 h2] at hd
  have hf : Entry.fd (p, c) = Entry.fd (t.slot i) := hc
  rw [Table.view, update_live p c h1 h2, view_replace hd hf, Table.view, live_around h1 h2]
  rfl

theorem apply_add {newfd : ℕ} {g : Growth} (h : (TableOp.add newfd g).apply t = .ok t') :
    ∃ idx, addToLists newfd g t = .ok (idx, t') := by
  simp only [TableOp.apply] at h
  cases ha : addToLists newfd g t with
  | error e => simp [ha] at h
  | ok q =>
    simp only [ha, Except.ok.injEq] at h
    exact ⟨q.1, by rw [← h]⟩

theorem apply_keeps {op : TableOp} (ht : t.Inv n) (hl : op.Legal n t) (h : op.apply t = .ok t') :
    Keeps n t t' := by
  cases op with
  | add newfd g =>
    obtain ⟨idx, ha⟩ := apply_add h
    exact add_keeps ht hl ha
  | close i =>
    cases h
    exact close_keeps ht hl.1 hl.2
  | update i p c =>
    cases h
    exact update_keeps ht hl.1 hl.2.1 hl.2.2.1 hl.2.2.2

theorem apply_refines {op : TableOp} (ht : t.Inv n) (hl : op.Legal n t)
    (h : op.apply t = .ok t') : op.Refines n t t' := by
  cases op with
  | add newfd g =>
    obtain ⟨idx, ha⟩ := apply_add h
    have hnew := newfd_notMem ht hl
    have hv := congrArg (SlotArray.view Entry.fd) (add_live ht ha)
    rw [view_concat hnew] at hv
    exact ⟨view_eq_none.mpr hnew, _, _, hv⟩
  | close i =>
    cases h
    exact ⟨view_slot ht hl.1 hl.2, close_view ht hl.1 hl.2⟩
  | update i p c =>
    cases h
    exact ⟨view_slot ht hl.1 hl.2.1, update_view ht hl.1 hl.2.1 hl.2.2.2⟩

end Operations

section Shutdown

theorem closeConn_closed {i : ℕ} (t : Table) (hi : 0 < i) :
    closed (closeConn i t).2 = [(t.clients i).fd] := by
  rw [closeConn_events hi, closed_closeEvents]

/-- The loop behind the event loop closes every client that is left. -/
theorem shutdownLoop_closes (fuel : ℕ) {s : Server} (hs : s.Inv)
    (hf : s.table.fdCount - s.numListeners ≤ fuel) :
    ∃ s' ev, shutdownLoop fuel s s.numListeners = .ok s' ∧
      s'.table.view s'.numListeners = (fun _ => none) ∧ s'.trace = s.trace ++ ev ∧
      (closed ev).Perm (s.entries.map Entry.fd) := by
  have hempty : ∀ {s : Server}, s.table.fdCount ≤ s.numListeners →
      s.entries = [] ∧ s.table.view s.numListeners = (fun _ => none) := by
    intro s h
    have he : s.entries = [] := live_of_le h
    refine ⟨he, funext fun k => ?_⟩
    apply view_eq_none.mpr
    change k ∉ s.entries.map Entry.fd
    simp [he]
  induction fuel generalizing s with
  | zero =>
    have hle : s.table.fdCount ≤ s.numListeners := by omega
    obtain ⟨he, hv⟩ := hempty hle
    exact ⟨s, [], if_neg (by omega), hv, by simp, by rw [he]; exact List.Perm.nil⟩
  | succ fuel ih =>
    rcases Nat.lt_or_ge s.numListeners s.table.fdCount with hlt | hge
    · have hpos : 0 < s.numListeners := hs.pos
      have hk := close_keeps hs le_rfl hlt
      obtain ⟨hc, -, -, hl⟩ := close_live hs le_rfl hlt
      have hcount : (s.close s.numListeners).table.fdCount = s.table.fdCount - 1 := hc
      obtain ⟨s', ev, hloop, hv, ht, hp⟩ := ih (s := s.close s.numListeners) hk.inv
        (by change _ - s.numListeners ≤ fuel; omega)
      refine ⟨s', (closeConn s.numListeners s.table).2 ++ ev, (if_pos hlt).trans hloop, hv, ?_, ?_⟩
      · rw [ht, ← List.append_assoc]
        rfl
      · have hrest : (s.close s.numListeners).entries =
            backToFront (live s.table.slot (s.numListeners + 1) s.table.fdCount) := by
          rw [live_of_le le_rfl] at hl
          exact hl
        have hall : s.entries =
            s.table.slot s.numListeners :: live s.table.slot (s.numListeners + 1) s.table.fdCount :=
          live_cons hlt
        rw [closed_append, closeConn_closed _ hpos, hall, List.map_cons]
        rw [hrest] at hp
        exact (hp.trans ((backToFront_perm _).map _)).cons _
    · obtain ⟨he, hv⟩ := hempty hge
      exact ⟨s, [], if_neg (by omega), hv, by simp, by rw [he]; exact List.Perm.nil⟩

end Shutdown

theorem acceptNewConn_fresh {n : ℕ} {t t' : Table} {rs : List AcceptResult} (ht : n ≤ t.fdCount)
    (h : acceptNewConn t rs = .ok t') :
    ∃ new, live t'.slot n t'.fdCount = live t.slot n t.fdCount ++ new ∧
      List.Forall₂ (fun a e => ∃ timestamp, e = freshEntry a.fd timestamp (addrText a.addr))
        (registered rs) new := by
  obtain ⟨new, hnew, heff⟩ := acceptNewConn_effect h
  refine ⟨new, heff.live n ht, hnew.imp fun a e he => ?_⟩
  obtain ⟨old, rfl⟩ := he
  exact ⟨old.timestamp, rfl⟩

theorem setup_listeners {pfds : ℕ → PollFd} {clients : ℕ → Client} {v4 v6 : Option ℕ} {s : Server}
    (h : setup pfds clients v4 v6 = .ok s) : s.numListeners = 1 ∨ s.numListeners = 2 := by
  simp only [setup] at h
  split_ifs at h with hl
  cases h
  cases v4 <;> cases v6 <;> simp_all

/-- The table is a map from descriptors to records, changed by each operation
at one key, and empty behind the shutdown loop. -/
theorem connectionTable_refines_map {pfds : ℕ → PollFd} {clients : ℕ → Client}
    {v4 v6 : Option ℕ} {s₀ : Server} (h0 : setup pfds clients v4 v6 = .ok s₀)
    {ops : List TableOp} {t : Table}
    (hlegal : Run.Along TableOp.apply (TableOp.Legal s₀.numListeners) s₀.table ops)
    (hrun : Run.run TableOp.apply s₀.table ops = .ok t) :
    (s₀.numListeners = 1 ∨ s₀.numListeners = 2) ∧
    t.Inv s₀.numListeners ∧
    (∀ l < s₀.numListeners, t.slot l = s₀.table.slot l) ∧
    (∀ (op : TableOp) t', op.Legal s₀.numListeners t → op.apply t = .ok t' →
      op.Refines s₀.numListeners t t') ∧
    (∀ rs t', acceptNewConn t rs = .ok t' →
      ∃ new, live t'.slot s₀.numListeners t'.fdCount =
          live t.slot s₀.numListeners t.fdCount ++ new ∧
        List.Forall₂ (fun a e => ∃ timestamp, e = freshEntry a.fd timestamp (addrText a.addr))
          (registered rs) new) ∧
    (∀ r round e,
      visitEntry r round (e.1, e.2.unstamped) = (visitEntry r round e).map Visit.unstamped) ∧
    ∀ round trace fuel, t.fdCount - s₀.numListeners ≤ fuel →
      ∃ s' ev, shutdownLoop fuel ⟨t, s₀.numListeners, round, trace⟩ s₀.numListeners = .ok s' ∧
        s'.table.view s'.numListeners = (fun _ => none) ∧ s'.trace = trace ++ ev ∧
        (closed ev).Perm ((live t.slot s₀.numListeners t.fdCount).map Entry.fd) := by
  have hkeeps : Keeps s₀.numListeners s₀.table t := by
    refine Run.invariant (I := Keeps s₀.numListeners s₀.table) ?_
      ⟨setup_inv h0, fun _ _ => rfl⟩ hlegal hrun
    intro t₁ op t₂ hk hl ha
    have h2 := apply_keeps hk.inv hl ha
    exact ⟨h2.inv, fun l hl => (h2.below l hl).trans (hk.below l hl)⟩
  refine ⟨setup_listeners h0, hkeeps.inv, hkeeps.below, ?_, ?_, visitEntry_unstamped, ?_⟩
  · intro op t' hl ha
    exact apply_refines hkeeps.inv hl ha
  · intro rs t' ha
    exact acceptNewConn_fresh hkeeps.inv.least ha
  · intro round trace fuel hf
    exact shutdownLoop_closes fuel (s := ⟨t, s₀.numListeners, round, trace⟩) hkeeps.inv hf

def recyclingOps : List TableOp :=
  [.add 7 ⟨true, true⟩, .add 8 ⟨true, true⟩, .close 1,
    .update 1 ⟨8, pollOut, 0⟩ { initClient blankClient 8 with state := .sendingHeader },
    .add 7 ⟨true, true⟩]

theorem connectionTable_refines_map_recycled :
    ∃ s₀ t, setup (fun _ => ⟨0, 0, 0⟩) (fun _ => blankClient) (some 3) none = .ok s₀ ∧
      Run.Along TableOp.apply (TableOp.Legal s₀.numListeners) s₀.table recyclingOps ∧
      Run.run TableOp.apply s₀.table recyclingOps = .ok t ∧ t.Inv s₀.numListeners := by
  obtain ⟨s₀, h0⟩ : ∃ s₀,
    setup (fun _ => ⟨0, 0, 0⟩) (fun _ => blankClient) (some 3) none = .ok s₀ := ⟨_, rfl⟩
  have hs : s₀ = _ := (Except.ok.inj h0).symm
  have hl : Run.Along TableOp.apply (TableOp.Legal s₀.numListeners) s₀.table recyclingOps := by
    subst hs
    refine Run.along_cons (by decide) rfl (Run.along_cons (by decide) rfl ?_)
    refine Run.along_cons (by decide) rfl (Run.along_cons (by decide) rfl ?_)
    exact Run.along_cons (by decide) rfl trivial
  obtain ⟨t, hr⟩ : ∃ t, Run.run TableOp.apply s₀.table recyclingOps = .ok t := by
    subst hs
    exact ⟨_, rfl⟩
  exact ⟨s₀, t, h0, hl, hr, (connectionTable_refines_map h0 hl hr).2.1⟩

end SimpleServer
