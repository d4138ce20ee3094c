import SimpleServer.EventLoop

/-!
# What a whole poll round does

The listener iterations append fresh entries to the live ones; the client
iterations sweep over all of them. `RoundEffect` collects what a round that
does not end the process has done, and `forLoop_ne_fuel` is its termination.
-/

namespace SimpleServer

open CString FileTree SlotArray

def registered : List AcceptResult → List Accepted
  | [] => []
  | .fail e :: rest => if e = .EINTR then registered rest else []
  | .conn a :: rest => if a.nonblock = false then registered rest else a :: registered rest

/-- A record that `accept_new_conn` has just put into the table. -/
def IsFresh (a : Accepted) (e : Entry) : Prop :=
  ∃ old, e = (⟨a.fd, pollIn, 0⟩, { initClient old a.fd with clientAddr := addrText a.addr })

/-- The connections registered by the listeners from `i` on. -/
def registeredFrom (r : Round) (s : Server) (i : ℕ) : List Accepted :=
  (List.range' i (s.numListeners - i)).flatMap fun j =>
    if (s.table.pfds j).revents &&& pollIn ≠ 0 then registered (r.accepts j) else []

structure AcceptEffect (t : Table) (new : List Entry) (t' : Table) : Prop where
  count : t'.fdCount = t.fdCount + new.length
  below : ∀ l < t.fdCount, t'.slot l = t.slot l
  live : ∀ lo ≤ t.fdCount, live t'.slot lo t'.fdCount = live t.slot lo t.fdCount ++ new
  fits : t.fdCount ≤ t.fdSize → 0 < t.fdSize → t'.fdCount ≤ t'.fdSize ∧ 0 < t'.fdSize

theorem AcceptEffect.refl (t : Table) : AcceptEffect t [] t :=
  ⟨rfl, fun _ _ => rfl, fun _ _ => by simp, fun h1 h2 => ⟨h1, h2⟩⟩

theorem AcceptEffect.trans {t t' t'' : Table} {new new' : List Entry}
    (h : AcceptEffect t new t') (h' : AcceptEffect t' new' t'') :
    AcceptEffect t (new ++ new') t'' := by
  refine ⟨?_, ?_, ?_, ?_⟩
  · rw [h'.count, h.count, List.length_append]
    omega
  · intro l hl
    rw [h'.below l (by rw [h.count]; omega), h.below l hl]
  · intro lo hlo
    rw [h'.live lo (by rw [h.count]; omega), h.live lo hlo, List.append_assoc]
  · intro h1 h2
    have hf := h.fits h1 h2
    exact h'.fits hf.1 hf.2

theorem addToLists_ok {t : Table} {newfd idx : ℕ} {g : Growth} {t' : Table}
    (h : addToLists newfd g t = .ok (idx, t')) :
    idx = t.fdCount ∧ t'.fdCount = t.fdCount + 1 ∧
      t'.slot = Function.update t.slot t.fdCount
        (⟨newfd, pollIn, 0⟩, initClient (t.clients t.fdCount) newfd) ∧
      t'.fdSize = (if t.fdCount = t.fdSize then t.fdSize * 2 else t.fdSize) := by
  simp only [addToLists] at h
  split_ifs at h
  all_goals
    simp only [Except.ok.injEq, Prod.mk.injEq] at h
    obtain ⟨rfl, rfl⟩ := h
    exact ⟨rfl, rfl, slot_update _ _ _ _ _ _, by simp_all⟩

theorem acceptOne_effect {t t' : Table} {a : Accepted} {idx : ℕ}
    (h : addToLists a.fd a.growth t = .ok (idx, t')) :
    ∃ e, IsFresh a e ∧ AcceptEffect t [e] (setAddr idx a.addr t') := by
  obtain ⟨rfl, hc, hs, hsz⟩ := addToLists_ok h
  have hcl : t'.clients t.fdCount = initClient (t.clients t.fdCount) a.fd := by
    have hx := congrFun hs t.fdCount
    rw [Function.update_self] at hx
    exact congrArg Prod.snd hx
  have hpf : t'.pfds t.fdCount = ⟨a.fd, pollIn, 0⟩ := by
    have hx := congrFun hs t.fdCount
    rw [Function.update_self] at hx
    exact congrArg Prod.fst hx
  have hslot : (setAddr t.fdCount a.addr t').slot = Function.update t.slot t.fdCount
      (⟨a.fd, pollIn, 0⟩, { initClient (t.clients t.fdCount) a.fd with
        clientAddr := addrText a.addr }) := by
    have hu := slot_update t' t.fdCount t'.fdCount t'.fdSize (t'.pfds t.fdCount)
      { t'.clients t.fdCount with clientAddr := addrText a.addr }
    rw [Function.update_eq_self, hcl, hpf, hs, Function.update_idem] at hu
    simpa only [setAddr, hcl] using hu
  refine ⟨_, ⟨t.clients t.fdCount, rfl⟩, hc, ?_, ?_, ?_⟩
  · intro l hl
    rw [hslot, Function.update_of_ne (by omega)]
  · intro lo hlo
    change live _ lo t'.fdCount = _
    rw [hslot, hc, live_push _ hlo]
  · intro h1 h2
    change t'.fdCount ≤ t'.fdSize ∧ 0 < t'.fdSize
    rw [hc, hsz]
    split_ifs <;> omega

theorem acceptNewConn_effect {rs : List AcceptResult} {t t' : Table}
    (h : acceptNewConn t rs = .ok t') :
    ∃ new, List.Forall₂ IsFresh (registered rs) new ∧ AcceptEffect t new t' := by
  induction rs generalizing t with
  | nil =>
    cases h
    exact ⟨[], .nil, .refl _⟩
  | cons a rs ih =>
    cases a with
    | fail e =>
      by_cases he : e = .EINTR
      · simp only [acceptNewConn, he, if_true] at h
        simpa only [registered, he, if_true] using ih h
      · simp only [acceptNewConn, he, if_false] at h
        cases h
        exact ⟨[], by simp [registered, he], .refl _⟩
    | conn a =>
      by_cases hn : a.nonblock = false
      · simp only [acceptNewConn, hn, if_true] at h
        simpa only [registered, hn, if_true] using ih h
      · rw [acceptNewConn, if_neg hn] at h
        cases ha : addToLists a.fd a.growth t with
        | error x => simp [ha] at h
        | ok q =>
          obtain ⟨idx, t₁⟩ := q
          simp only [ha] at h
          obtain ⟨e, he, h1⟩ := acceptOne_effect ha
          obtain ⟨new, hnew, h2⟩ := ih h
          refine ⟨e :: new, ?_, h1.trans h2⟩
          rw [registered, if_neg hn]
          exact .cons he hnew

theorem registered_length (rs : List AcceptResult) : (registered rs).length ≤ rs.length := by
  induction rs with
  | nil => simp [registered]
  | cons a rs ih =>
    cases a with
    | fail e =>
      simp only [registered, List.length_cons]
      split_ifs
      · omega
      · simp
    | conn a =>
      simp only [registered, List.length_cons]
      split_ifs
      · omega
      · simp only [List.length_cons]
        omega

/-- A connection of this round for which the table could not be grown. -/
def GrowthFails (r : Round) (s : Server) : Prop :=
  ∃ i < s.numListeners, ∃ a, .conn a ∈ r.accepts i ∧
    (a.growth.pfds = false ∨ a.growth.clients = false)

theorem acceptNewConn_error {rs : List AcceptResult} {t : Table} {x : ExitStatus}
    (h : acceptNewConn t rs = .error x) :
    ∃ a, .conn a ∈ rs ∧ (a.growth.pfds = false ∨ a.growth.clients = false) := by
  induction rs generalizing t with
  | nil => cases h
  | cons a rs ih =>
    cases a with
    | fail e =>
      by_cases he : e = .EINTR
      · rw [acceptNewConn, if_pos he] at h
        obtain ⟨a, ha, hg⟩ := ih h
        exact ⟨a, List.mem_cons_of_mem _ ha, hg⟩
      · rw [acceptNewConn, if_neg he] at h
        cases h
    | conn a =>
      by_cases hn : a.nonblock = false
      · rw [acceptNewConn, if_pos hn] at h
        obtain ⟨b, hb, hg⟩ := ih h
        exact ⟨b, List.mem_cons_of_mem _ hb, hg⟩
      · rw [acceptNewConn, if_neg hn] at h
        cases ha : addToLists a.fd a.growth t with
        | error y =>
          refine ⟨a, List.mem_cons_self, ?_⟩
          simp only [addToLists] at ha
          split_ifs at ha with hc
          exact hc.2
        | ok q =>
          simp only [ha] at h
          obtain ⟨b, hb, hg⟩ := ih h
          exact ⟨b, List.mem_cons_of_mem _ hb, hg⟩

section Listeners

variable {r : Round}

/-- What the listener iterations from slot `i` on have done to a server. -/
structure ListenEffect (r : Round) (s : Server) (i : ℕ) (new : List Entry) (s' : Server) :
    Prop where
  listeners : s'.numListeners = s.numListeners
  round : s'.round = s.round
  trace : s'.trace = s.trace
  fresh : List.Forall₂ IsFresh (registeredFrom r s i) new
  accept : AcceptEffect s.table new s'.table

theorem registeredFrom_succ {s : Server} {i : ℕ} (hi : i < s.numListeners) :
    registeredFrom r s i =
      (if (s.table.pfds i).revents &&& pollIn ≠ 0 then registered (r.accepts i) else []) ++
        registeredFrom r s (i + 1) := by
  have hn : s.numListeners - i = (s.numListeners - (i + 1)) + 1 := by omega
  rw [registeredFrom, hn, List.range'_succ, List.flatMap_cons]
  rfl

theorem registeredFrom_congr {s s' : Server} {i : ℕ} (hn : s'.numListeners = s.numListeners)
    (hp : ∀ j < s.numListeners, s'.table.slot j = s.table.slot j) :
    registeredFrom r s' i = registeredFrom r s i := by
  rw [registeredFrom, registeredFrom, hn]
  apply List.flatMap_congr
  intro j hj
  rw [List.mem_range'_1] at hj
  have hslot : s'.table.pfds j = s.table.pfds j := congrArg Prod.fst (hp j (by omega))
  rw [hslot]

theorem registeredFrom_length (r : Round) (s : Server) :
    (registeredFrom r s 0).length ≤
      ((List.range s.numListeners).map fun i => (r.accepts i).length).sum := by
  rw [registeredFrom, List.length_flatMap, Nat.sub_zero, ← List.range_eq_range']
  apply List.sum_le_sum
  intro i _
  by_cases h : (s.table.pfds i).revents &&& pollIn ≠ 0
  · rw [if_pos h]
    exact registered_length _
  · rw [if_neg h]
    exact Nat.zero_le _

theorem visitListener_ok {s : Server} {i : ℕ} {s₁ : Server}
    (h : visitListener r s i = .ok s₁) :
    ∃ new, s₁.numListeners = s.numListeners ∧ s₁.round = s.round ∧ s₁.trace = s.trace ∧
      List.Forall₂ IsFresh (if (s.table.pfds i).revents &&& pollIn ≠ 0 then
        registered (r.accepts i) else []) new ∧ AcceptEffect s.table new s₁.table := by
  by_cases hp : (s.table.pfds i).revents &&& pollIn ≠ 0
  · rw [visitListener, if_pos hp] at h
    rw [if_pos hp]
    cases ha : acceptNewConn s.table (r.accepts i) with
    | error x => simp [ha] at h
    | ok t =>
      simp only [ha, Except.ok.injEq] at h
      subst h
      obtain ⟨new, hnew, heff⟩ := acceptNewConn_effect ha
      exact ⟨new, rfl, rfl, rfl, hnew, heff⟩
  · rw [visitListener, if_neg hp] at h
    rw [if_neg hp]
    cases h
    exact ⟨[], rfl, rfl, rfl, .nil, .refl _⟩

theorem visitListener_error {s : Server} {i : ℕ} {x : ExitStatus} (hi : i < s.numListeners)
    (h : visitListener r s i = .error x) : GrowthFails r s := by
  by_cases hp : (s.table.pfds i).revents &&& pollIn ≠ 0
  · rw [visitListener, if_pos hp] at h
    cases ha : acceptNewConn s.table (r.accepts i) with
    | error y => exact ⟨i, hi, acceptNewConn_error ha⟩
    | ok t => simp [ha] at h
  · rw [visitListener, if_neg hp] at h
    cases h

theorem forLoop_listeners (k fuel : ℕ) {s : Server} {i : ℕ} (hk : i + k = s.numListeners)
    (hn : s.numListeners ≤ s.table.fdCount) :
    (∃ s' new, ListenEffect r s i new s' ∧
      forLoop r (k + fuel) s i = forLoop r fuel s' s.numListeners) ∨
      ∃ x, forLoop r (k + fuel) s i = .error (.exit x) ∧ GrowthFails r s := by
  induction k generalizing s i with
  | zero =>
    have hi : i = s.numListeners := by omega
    refine Or.inl ⟨s, [], ⟨rfl, rfl, rfl, ?_, .refl _⟩, by rw [Nat.zero_add, hi]⟩
    rw [registeredFrom, hi, Nat.sub_self]
    exact .nil
  | succ k ih =>
    have hi : i < s.numListeners := by omega
    have hf : k + 1 + fuel = (k + fuel) + 1 := by omega
    rw [hf]
    cases hv : visitListener r s i with
    | error x =>
      refine Or.inr ⟨x, ?_, visitListener_error hi hv⟩
      simp only [forLoop, visitSlot, hi, if_true, show i < s.table.fdCount by omega, hv]
    | ok s₁ =>
      have hloop : forLoop r (k + fuel + 1) s i = forLoop r (k + fuel) s₁ (i + 1) := by
        simp only [forLoop, visitSlot, hi, if_true, show i < s.table.fdCount by omega, hv]
      obtain ⟨new, hl, hr, ht, hfresh, heff⟩ := visitListener_ok hv
      have hcount := heff.count
      have hcongr : registeredFrom r s₁ (i + 1) = registeredFrom r s (i + 1) :=
        registeredFrom_congr hl fun j hj => heff.below j (by omega)
      rw [hloop]
      rcases ih (s := s₁) (i := i + 1) (by omega) (by omega) with
        ⟨s', new', he, hs⟩ | ⟨x, hx, j, hj, hg⟩
      · refine Or.inl ⟨s', new ++ new', ⟨he.listeners.trans hl, he.round.trans hr,
          he.trace.trans ht, ?_, heff.trans he.accept⟩, by rw [hs, hl]⟩
        rw [registeredFrom_succ hi, ← hcongr]
        exact List.rel_append hfresh he.fresh
      · exact Or.inr ⟨x, hx, j, by omega, hg⟩

end Listeners

section Clients

variable {r : Round}

/-- What the client iterations from slot `i` on have done to a server. -/
structure SweepEffect (r : Round) (s : Server) (i : ℕ) (order : List Entry) (s' : Server) :
    Prop where
  listeners : s'.numListeners = s.numListeners
  round : s'.round = s.round
  size : s'.table.fdSize = s.table.fdSize
  sweep : Sweeps (keptBy r s.round) (live s.table.slot i s.table.fdCount) order
  visited : ∀ e ∈ order, ∃ v, visitEntry r s.round e = .ok v
  trace : s'.trace = s.trace ++ order.flatMap (eventsOf r s.round)
  below : ∀ l < i, s'.table.slot l = s.table.slot l
  least : i ≤ s'.table.fdCount
  left : live s'.table.slot i s'.table.fdCount = order.filterMap (keptBy r s.round)

theorem keptBy_ok {round : ℕ} {e : Entry} {v : Visit} (h : visitEntry r round e = .ok v) :
    keptBy r round e = v.kept ∧ eventsOf r round e = v.events := by
  simp [keptBy, eventsOf, h]

theorem SweepEffect.visited_cons {s s₁ s' : Server} {i : ℕ} {v : Visit} {e : Entry}
    {order : List Entry} (h : SweepEffect r s₁ i order s') (hr : s₁.round = s.round)
    (hv : visitEntry r s.round e = .ok v) :
    ∀ x ∈ e :: order, ∃ v, visitEntry r s.round x = .ok v := by
  intro x hx
  rcases List.mem_cons.mp hx with rfl | hx
  · exact ⟨v, hv⟩
  · rw [← hr]
    exact h.visited x hx

theorem SweepEffect.trace_cons {s s₁ s' : Server} {i : ℕ} {v : Visit} {e : Entry}
    {order : List Entry} (h : SweepEffect r s₁ i order s') (hr : s₁.round = s.round)
    (ht : s₁.trace = s.trace ++ v.events) (hv : visitEntry r s.round e = .ok v) :
    s'.trace = s.trace ++ (e :: order).flatMap (eventsOf r s.round) := by
  rw [h.trace, ht, List.flatMap_cons, (keptBy_ok hv).2, hr, List.append_assoc]

theorem SweepEffect.step_kept {s s₁ s' : Server} {i j : ℕ} {v : Visit} {e : Entry}
    {order : List Entry} (hlt : i < s.table.fdCount)
    (hv : visitEntry r s.round (s.table.slot i) = .ok v) (hk : v.kept = some e)
    (h1 : SlotEffect s i v s₁ j) (h2 : SweepEffect r s₁ (i + 1) order s') :
    SweepEffect r s i (s.table.slot i :: order) s' := by
  obtain ⟨rfl, hcount, hslot⟩ := h1.kept e hk
  obtain ⟨hkept, -⟩ := keptBy_ok hv
  have hr := h1.round
  refine ⟨h2.listeners.trans h1.listeners, h2.round.trans hr, h2.size.trans h1.size, ?_, ?_, ?_,
    ?_, ?_, ?_⟩
  · rw [live_cons hlt]
    refine .keep (hkept.trans hk) ?_
    have hsw := h2.sweep
    rwa [hr, hcount, hslot, live_update_of_gt _ (Nat.lt_succ_self i)] at hsw
  · exact h2.visited_cons hr hv
  · exact h2.trace_cons hr h1.trace hv
  · intro l hl
    rw [h2.below l (by omega), h1.below l hl]
  · exact (Nat.le_succ i).trans h2.least
  · have hi : s'.table.slot i = e := by
      rw [h2.below i (Nat.lt_succ_self i), hslot, Function.update_self]
    have hl := h2.least
    rw [live_cons (by omega), h2.left, hi, hr]
    rw [List.filterMap_cons, hkept, hk]

theorem SweepEffect.step_gone {s s₁ s' : Server} {i j : ℕ} {v : Visit}
    {order : List Entry} (hlt : i < s.table.fdCount)
    (hv : visitEntry r s.round (s.table.slot i) = .ok v) (hk : v.kept = none)
    (h1 : SlotEffect s i v s₁ j) (h2 : SweepEffect r s₁ i order s') :
    SweepEffect r s i (s.table.slot i :: order) s' := by
  obtain ⟨rfl, hcount, hlive⟩ := h1.gone hk
  obtain ⟨hkept, -⟩ := keptBy_ok hv
  have hr := h1.round
  refine ⟨h2.listeners.trans h1.listeners, h2.round.trans hr, h2.size.trans h1.size, ?_, ?_, ?_,
    ?_, h2.least, ?_⟩
  · rw [live_cons hlt]
    refine .drop (hkept.trans hk) ?_
    have hsw := h2.sweep
    rwa [hr, hlive] at hsw
  · exact h2.visited_cons hr hv
  · exact h2.trace_cons hr h1.trace hv
  · intro l hl
    rw [h2.below l hl, h1.below l hl]
  · rw [h2.left, hr, List.filterMap_cons, hkept, hk]

theorem forLoop_clients (fuel : ℕ) {s : Server} {i : ℕ} (hpos : 0 < s.numListeners)
    (hi : s.numListeners ≤ i) (hle : i ≤ s.table.fdCount) (hfuel : s.table.fdCount - i ≤ fuel) :
    (∃ s' order, forLoop r fuel s i = .ok s' ∧ SweepEffect r s i order s') ∨
      ∃ x, forLoop r fuel s i = .error (.exit x) ∧
        ∃ e ∈ live s.table.slot i s.table.fdCount, visitEntry r s.round e = .error x := by
  induction fuel generalizing s i with
  | zero =>
    have he : i = s.table.fdCount := by omega
    refine Or.inl ⟨s, [], by simp [forLoop, he], rfl, rfl, rfl, ?_, by simp, by simp,
      fun _ _ => rfl, hle, ?_⟩
    · rw [live_of_le (by omega)]
      exact .nil
    · rw [live_of_le (by omega)]
      rfl
  | succ fuel ih =>
    rcases Nat.lt_or_ge i s.table.fdCount with hlt | hge
    · have hvis : visitSlot r s i = visitClient r s i := if_neg (by omega)
      have hmem : s.table.slot i ∈ live s.table.slot i s.table.fdCount :=
        mem_live.mpr ⟨i, le_rfl, hlt, rfl⟩
      cases hv : visitEntry r s.round (s.table.slot i) with
      | error x =>
        refine Or.inr ⟨x, ?_, _, hmem, hv⟩
        simp only [forLoop, hlt, if_true, hvis, visitClient_error hv]
      | ok v =>
        obtain ⟨s₁, j, hok, heff⟩ := visitClient_ok (by omega) hlt hv
        have hloop : forLoop r (fuel + 1) s i = forLoop r fuel s₁ j := by
          simp only [forLoop, hlt, if_true, hvis, hok]
        rw [hloop]
        cases hk : v.kept with
        | some e =>
          obtain ⟨rfl, hcount, hslot⟩ := heff.kept e hk
          have hrest := ih (s := s₁) (i := i + 1) (by rw [heff.listeners]; exact hpos)
            (by rw [heff.listeners]; omega) (by omega) (by omega)
          rcases hrest with ⟨s', order, hs', he'⟩ | ⟨x, hx, y, hy, hyx⟩
          · exact Or.inl ⟨s', _, hs', he'.step_kept hlt hv hk heff⟩
          · refine Or.inr ⟨x, hx, y, ?_, by rw [← heff.round]; exact hyx⟩
            rw [hcount, hslot, live_update_of_gt _ (Nat.lt_succ_self i)] at hy
            rw [live_cons hlt]
            exact List.mem_cons_of_mem _ hy
        | none =>
          obtain ⟨rfl, hcount, hlive⟩ := heff.gone hk
          have hrest := ih (s := s₁) (i := j) (by rw [heff.listeners]; exact hpos)
            (by rw [heff.listeners]; omega) (by omega) (by omega)
          rcases hrest with ⟨s', order, hs', he'⟩ | ⟨x, hx, y, hy, hyx⟩
          · exact Or.inl ⟨s', _, hs', he'.step_gone hlt hv hk heff⟩
          · refine Or.inr ⟨x, hx, y, ?_, by rw [← heff.round]; exact hyx⟩
            rw [hlive, (backToFront_perm _).mem_iff] at hy
            rw [live_cons hlt]
            exact List.mem_cons_of_mem _ hy
    · have he : i = s.table.fdCount := by omega
      refine Or.inl ⟨s, [], by simp [forLoop, he], rfl, rfl, rfl, ?_, by simp, by simp,
        fun _ _ => rfl, hle, ?_⟩
      · rw [live_of_le (by omega)]
        exact .nil
      · rw [live_of_le (by omega)]
        rfl

end Clients

/-- What a poll round that does not end the process has done: `new` are the
entries of the connections it accepted, `order` is the order of the visits. -/
structure RoundEffect (r : Round) (s : Server) (new order : List Entry) (s' : Server) : Prop where
  listeners : s'.numListeners = s.numListeners
  round : s'.round = s.round
  fresh : List.Forall₂ IsFresh (registeredFrom r (s.polled r) 0) new
  sweep : Sweeps (keptBy r s.round) ((s.polled r).entries ++ new) order
  visited : ∀ e ∈ order, ∃ v, visitEntry r s.round e = .ok v
  trace : s'.trace = s.trace ++ order.flatMap (eventsOf r s.round)
  below : ∀ l < s.numListeners, s'.table.slot l = (s.polled r).table.slot l
  least : s.numListeners ≤ s'.table.fdCount
  fits : s.table.fdCount ≤ s.table.fdSize → 0 < s.table.fdSize →
    s'.table.fdCount ≤ s'.table.fdSize ∧ 0 < s'.table.fdSize
  left : s'.entries = order.filterMap (keptBy r s.round)

theorem fresh_all {Q : Entry → Prop} {as : List Accepted} {new : List Entry}
    (hfresh : ∀ a ∈ as, ∀ e, IsFresh a e → Q e) (h : List.Forall₂ IsFresh as new) :
    ∀ e ∈ new, Q e := by
  induction h with
  | nil => simp
  | cons hab _ ih =>
    intro e he
    rcases List.mem_cons.mp he with h | h
    · rw [h]
      exact hfresh _ List.mem_cons_self _ hab
    · exact ih (fun a ha => hfresh a (List.mem_cons_of_mem _ ha)) e h

theorem fresh_revents {as : List Accepted} {new : List Entry} (h : List.Forall₂ IsFresh as new) :
    ∀ e ∈ new, e.1.revents = 0 := by
  refine fresh_all (fun a _ e he => ?_) h
  obtain ⟨old, rfl⟩ := he
  rfl

theorem forLoop_round {r : Round} {s : Server} {fuel : ℕ} (hpos : 0 < s.numListeners)
    (hn : s.numListeners ≤ s.table.fdCount) (hfuel : loopFuel s r ≤ fuel) :
    (∃ s' new order, forLoop r fuel (s.polled r) 0 = .ok s' ∧ RoundEffect r s new order s') ∨
      ∃ x, forLoop r fuel (s.polled r) 0 = .error (.exit x) ∧
        (GrowthFails r s ∨ ∃ e ∈ (s.polled r).entries, visitEntry r s.round e = .error x) := by
  have hlen := registeredFrom_length r (s.polled r)
  simp only [loopFuel] at hfuel
  obtain ⟨fuel', rfl⟩ : ∃ f, fuel = s.numListeners + f := ⟨fuel - s.numListeners, by omega⟩
  rcases forLoop_listeners (r := r) s.numListeners fuel' (s := s.polled r) (i := 0)
     (by rw [Nat.zero_add]; rfl) hn with ⟨s₁, new, hl, hloop⟩ | ⟨x, hx, hg⟩
  · rw [hloop]
    have hcount : s₁.table.fdCount = s.table.fdCount + new.length := hl.accept.count
    have hnew : new.length = (registeredFrom r (s.polled r) 0).length := hl.fresh.length_eq.symm
    have hlis : s₁.numListeners = s.numListeners := hl.listeners
    have hround : s₁.round = s.round := hl.round
    have hlive : live s₁.table.slot s.numListeners s₁.table.fdCount =
        (s.polled r).entries ++ new := hl.accept.live s.numListeners hn
    change new.length = _ at hnew
    change _ ≤ ((List.range s.numListeners).map fun i => (r.accepts i).length).sum at hlen
    change (∃ s' new order, forLoop r fuel' s₁ s.numListeners = .ok s' ∧ _) ∨
      ∃ x, forLoop r fuel' s₁ s.numListeners = .error (.exit x) ∧ _
    rcases forLoop_clients (r := r) fuel' (s := s₁) (i := s.numListeners)
      (by omega) (by omega) (by omega) (by omega) with ⟨s', order, hs', he⟩ | ⟨x, hx, e, he, hex⟩
    · refine Or.inl ⟨s', new, order, hs', he.listeners.trans hlis, he.round.trans hround,
        hl.fresh, ?_, ?_, ?_, ?_, he.least, ?_, ?_⟩
      · rw [← hlive, ← hround]
        exact he.sweep
      · rw [← hround]
        exact he.visited
      · rw [he.trace, hl.trace, hround]
        rfl
      · intro l hlt
        rw [he.below l hlt]
        exact hl.accept.below l (lt_of_lt_of_le hlt hn)
      · intro h1 h2
        have hf := hl.accept.fits h1 h2
        have hperm := he.sweep.perm.length_eq
        have hleft := congrArg List.length he.left
        have hkeep := List.length_filterMap_le (keptBy r s₁.round) order
        have hleast := he.least
        rw [live_length] at hperm hleft
        rw [he.size]
        omega
      · rw [Server.entries, he.listeners, hlis, ← hround]
        exact he.left
    · refine Or.inr ⟨x, hx, Or.inr ⟨e, ?_, by rw [← hround]; exact hex⟩⟩
      rw [hlive] at he
      rcases List.mem_append.mp he with h | h
      · exact h
      · rw [visitEntry_idle (fresh_revents hl.fresh e h)] at hex
        cases hex
  · exact Or.inr ⟨x, hx, Or.inl hg⟩

theorem forLoop_mono {r : Round} {n m : ℕ} {s : Server} {i : ℕ}
    (h : forLoop r n s i ≠ .error .fuel) (hnm : n ≤ m) : forLoop r m s i = forLoop r n s i := by
  induction n generalizing m s i with
  | zero =>
    have hi : ¬ i < s.table.fdCount := by
      intro hi
      exact h (if_pos hi)
    cases m with
    | zero => rfl
    | succ m => simp only [forLoop, hi, if_false]
  | succ n ih =>
    obtain ⟨m, rfl⟩ : ∃ k, m = k + 1 := ⟨m - 1, by omega⟩
    by_cases hi : i < s.table.fdCount
    · simp only [forLoop, hi, if_true] at h ⊢
      cases hv : visitSlot r s i with
      | error x => rfl
      | ok q =>
        simp only [hv] at h ⊢
        exact ih h (by omega)
    · simp only [forLoop, hi, if_false]

theorem pollRound_ok {r : Round} {s s' : Server} (hpos : 0 < s.numListeners)
    (hn : s.numListeners ≤ s.table.fdCount) (h : pollRound s r = .ok s') :
    ∃ s₁ new order, s' = { s₁ with round := s.round + 1 } ∧ RoundEffect r s new order s₁ := by
  rcases forLoop_round (r := r) hpos hn le_rfl with ⟨s₁, new, order, hs, he⟩ | ⟨x, hx, -⟩
  · simp only [pollRound, hs, Except.ok.injEq] at h
    exact ⟨s₁, new, order, by rw [← h, he.round], he⟩
  · simp [pollRound, hx] at h

theorem pollRound_error {r : Round} {s : Server} {x : Halt} (hpos : 0 < s.numListeners)
    (hn : s.numListeners ≤ s.table.fdCount) (h : pollRound s r = .error x) :
    ∃ y, x = .exit y ∧ (GrowthFails r s ∨
      ∃ e ∈ (s.polled r).entries, visitEntry r s.round e = .error y) := by
  rcases forLoop_round (r := r) hpos hn le_rfl with ⟨s₁, new, order, hs, -⟩ | ⟨y, hy, hwhy⟩
  · simp [pollRound, hs] at h
  · simp only [pollRound, hy, Except.error.injEq] at h
    exact ⟨y, h.symm, hwhy⟩

end SimpleServer
