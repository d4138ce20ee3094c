import SimpleServer.Lib.Run
import SimpleServer.PollRound
import SimpleServer.ServeSpec

/-!
# Exactly one visit for every ready client

Read off the trace of a poll round are the entries it examined and the
descriptors it closed. A visit leaves one `visit` event if its `revents` are
not zero and one `close` event if the entry goes; the handlers leave neither.
Since a round visits a permutation of the polled entries and of the freshly
accepted ones, whose `revents` are zero, the examined entries are exactly the
ready ones and the closed descriptors exactly those of the entries that go.
-/

namespace SimpleServer

open CString FileTree SlotArray

/-- The table behind `n` listeners. -/
structure Table.Inv (n : ℕ) (t : Table) : Prop where
  pos : 0 < n
  least : n ≤ t.fdCount
  room : 0 < t.fdSize
  fits : t.fdCount ≤ t.fdSize
  paired : ∀ e ∈ live t.slot n t.fdCount, e.1.fd = e.2.fd
  distinct : ((live t.slot n t.fdCount).map Entry.fd).Nodup

abbrev Server.Inv (s : Server) : Prop := s.table.Inv s.numListeners

/-- The kernel hands out no descriptor that is in use. -/
def FreshFds (r : Round) (s : Server) : Prop :=
  (s.entries.map Entry.fd ++ (registeredFrom r (s.polled r) 0).map Accepted.fd).Nodup

def examined (ev : List Event) : List Entry :=
  ev.filterMap fun
    | .visit p c => some (p, c)
    | _ => none

def closed (ev : List Event) : List ℕ :=
  ev.filterMap fun
    | .close c => some c.fd
    | _ => none

def endsClosing (r : Round) (round : ℕ) (e : Entry) : Bool :=
  match writeEntry r e.1.revents (readEntry r round e).client with
  | .ok w => decide (w.client.state = .closing)
  | .error _ => false

/-- The entries that a round removes. -/
def goneBy (r : Round) (round : ℕ) (e : Entry) : Bool :=
  e.1.revents != 0 && (e.1.revents &&& pollFailed != 0 || endsClosing r round e)

section Handlers

variable {r : Round} {round : ℕ} {e : Entry}

theorem recvLoop_fd (c : Client) (rs : List RecvResult) : (recvLoop c rs).1.fd = c.fd := by
  rw [(recvLoop_frame c rs).eq]

theorem doRead_fd (env : Env) (rs : List RecvResult) (c : Client) (p : PollFd) :
    (doRead env round rs c p).client.fd = c.fd ∧ (doRead env round rs c p).pollFd.fd = p.fd := by
  rcases doRead_cases env round rs c p with ⟨h, -⟩ | ⟨buf, k, -, -, -, -, h⟩
  · rw [h]
    exact ⟨recvLoop_fd c rs, rfl⟩
  · rw [h]
    refine ⟨?_, rfl⟩
    change (respond env round _ buf).client.fd = c.fd
    rw [respond_frame.eq]
    exact recvLoop_fd c rs

theorem readEntry_fd :
    (readEntry r round e).client.fd = e.2.fd ∧ (readEntry r round e).pollFd.fd = e.1.fd := by
  simp only [readEntry]
  split
  · exact doRead_fd _ _ _ _
  · exact ⟨rfl, rfl⟩

theorem writeEntry_fd {revents : PollMask} {c : Client} {w : WriteOutcome}
    (h : writeEntry r revents c = .ok w) : w.client.fd = c.fd := by
  simp only [writeEntry] at h
  split_ifs at h
  · exact (doWrite_ok h).2.1
  · cases h
    rfl

theorem writeEntry_cases {revents : PollMask} {c : Client} {w : WriteOutcome}
    (h : writeEntry r revents c = .ok w) : w = ⟨c, []⟩ ∨ w.client.state = .closing := by
  simp only [writeEntry] at h
  split_ifs at h
  · exact Or.inr (doWrite_ok h).1
  · cases h
    exact Or.inl rfl

theorem readEntry_events : ∀ ev ∈ (readEntry r round e).events,
    ev.ofServe = true ∨ ∃ line, ev = .logLine line := by
  simp only [readEntry]
  split
  · exact doRead_events _ _ _ _ _
  · simp

theorem readEntry_ofLoop : ∀ ev ∈ (readEntry r round e).events, ev.ofLoop = false := by
  intro ev hev
  rcases readEntry_events ev hev with h | ⟨line, rfl⟩
  · exact Event.not_ofLoop h
  · rfl

theorem writeEntry_ofLoop {revents : PollMask} {c : Client} {w : WriteOutcome}
    (h : writeEntry r revents c = .ok w) : ∀ ev ∈ w.events, ev.ofLoop = false := by
  simp only [writeEntry] at h
  split_ifs at h
  · exact doWrite_ofLoop h
  · cases h
    simp

end Handlers

section Events

variable {ev ev' : List Event}

@[simp] theorem examined_append : examined (ev ++ ev') = examined ev ++ examined ev' :=
  List.filterMap_append

@[simp] theorem closed_append : closed (ev ++ ev') = closed ev ++ closed ev' :=
  List.filterMap_append

theorem examined_handlers (h : ∀ x ∈ ev, x.ofLoop = false) : examined ev = [] := by
  rw [examined, List.filterMap_eq_nil_iff]
  intro x hx
  have hl := h x hx
  cases x <;> first | rfl | cases hl

theorem closed_handlers (h : ∀ x ∈ ev, x.ofLoop = false) : closed ev = [] := by
  rw [closed, List.filterMap_eq_nil_iff]
  intro x hx
  have hl := h x hx
  cases x <;> first | rfl | cases hl

theorem examined_closeEvents (c : Client) : examined (closeEvents c) = [] := by
  simp only [closeEvents]
  split <;> rfl

theorem closed_closeEvents (c : Client) : closed (closeEvents c) = [c.fd] := by
  simp only [closeEvents]
  split <;> rfl

end Events

/-- What the trace of one visit says about it. -/
structure VisitFacts (r : Round) (round : ℕ) (e : Entry) (v : Visit) : Prop where
  examined : examined v.events = if e.1.revents != 0 then [e] else []
  closed : closed v.events = if goneBy r round e then [e.fd] else []
  gone : v.kept = none ↔ goneBy r round e = true
  kept : ∀ e', v.kept = some e' → e'.fd = e.fd ∧ e'.1.fd = e.1.fd
  idle : e.1.revents = 0 → v.kept = some e

section Visits

variable {r : Round} {round : ℕ} {e : Entry} {v : Visit}

theorem goneBy_iff : goneBy r round e = true ↔
    e.1.revents ≠ 0 ∧ (e.1.revents &&& pollFailed ≠ 0 ∨ endsClosing r round e = true) := by
  simp only [goneBy, Bool.and_eq_true, Bool.or_eq_true, bne_iff_ne]

theorem visitFacts_idle (h0 : e.1.revents = 0) : VisitFacts r round e ⟨some e, []⟩ := by
  have hg : goneBy r round e = false := by simp [goneBy, h0]
  refine ⟨?_, ?_, ?_, ?_, fun _ => rfl⟩
  · simp [h0, SimpleServer.examined]
  · simp [hg, SimpleServer.closed]
  · simp [hg]
  · intro e' he
    cases he
    exact ⟨rfl, rfl⟩

theorem examined_visit (l : List Event) : examined (.visit e.1 e.2 :: l) = e :: examined l := rfl

theorem closed_visit (l : List Event) : closed (.visit e.1 e.2 :: l) = closed l := rfl

theorem visitFacts_gone {c : Client} {l : List Event} (h0 : e.1.revents ≠ 0)
    (hg : goneBy r round e = true) (hl : ∀ x ∈ l, x.ofLoop = false) (hc : c.fd = e.2.fd) :
    VisitFacts r round e ⟨none, .visit e.1 e.2 :: (l ++ closeEvents c)⟩ := by
  refine ⟨?_, ?_, ?_, ?_, fun h => absurd h h0⟩
  · rw [examined_visit, examined_append, examined_handlers hl, examined_closeEvents,
      if_pos (by simpa using h0)]
    rfl
  · rw [closed_visit, closed_append, closed_handlers hl, closed_closeEvents, if_pos hg, hc]
    rfl
  · simp [hg]
  · intro e' he
    cases he

theorem visitFacts_kept {e' : Entry} {l : List Event} (h0 : e.1.revents ≠ 0)
    (hg : goneBy r round e = false) (hl : ∀ x ∈ l, x.ofLoop = false)
    (hf : e'.fd = e.fd ∧ e'.1.fd = e.1.fd) :
    VisitFacts r round e ⟨some e', .visit e.1 e.2 :: l⟩ := by
  refine ⟨?_, ?_, ?_, ?_, fun h => absurd h h0⟩
  · rw [examined_visit, examined_handlers hl, if_pos (by simpa using h0)]
  · rw [closed_visit, closed_handlers hl, if_neg (by simp [hg])]
  · simp [hg]
  · intro x hx
    cases hx
    exact hf

theorem visitEntry_facts (h : visitEntry r round e = .ok v) : VisitFacts r round e v := by
  have hl : ∀ {w}, writeEntry r e.1.revents (readEntry r round e).client = .ok w →
      ∀ x ∈ (readEntry r round e).events ++ w.events, x.ofLoop = false := by
    intro w hw x hx
    rcases List.mem_append.mp hx with hx | hx
    · exact readEntry_ofLoop x hx
    · exact writeEntry_ofLoop hw x hx
  cases visitEntry_cases h with
  | idle h0 => exact visitFacts_idle h0
  | failed h0 h1 =>
    have hg : goneBy r round e = true := goneBy_iff.mpr ⟨h0, Or.inl h1⟩
    exact visitFacts_gone (l := []) h0 hg (by simp) rfl
  | closing w h0 hz hw hc =>
    have hg : goneBy r round e = true :=
      goneBy_iff.mpr ⟨h0, Or.inr (by simp [endsClosing, hw, hc])⟩
    exact visitFacts_gone h0 hg (hl hw) ((writeEntry_fd hw).trans readEntry_fd.1)
  | kept w h0 hz hw hc =>
    have hg : goneBy r round e = false := by simp [goneBy, endsClosing, hz, hw, hc]
    exact visitFacts_kept h0 hg (hl hw) ⟨(writeEntry_fd hw).trans readEntry_fd.1, readEntry_fd.2⟩

theorem visitEntry_kept {e' : Entry} (h : visitEntry r round e = .ok v) (hk : v.kept = some e') :
    (e' = e ∧ e.1.revents = 0) ∨
      (e.1.revents &&& pollFailed = 0 ∧ (readEntry r round e).client.state ≠ .closing ∧
        e' = ((readEntry r round e).pollFd, (readEntry r round e).client)) := by
  cases visitEntry_cases h with
  | idle h0 =>
    cases hk
    exact Or.inl ⟨rfl, h0⟩
  | failed h0 h1 => cases hk
  | closing w h0 hz hw hc => cases hk
  | kept w h0 hz hw hc =>
    cases hk
    have hw' := (writeEntry_cases hw).resolve_right hc
    subst hw'
    exact Or.inr ⟨hz, hc, rfl⟩

end Visits

section Round

variable {r : Round} {s s' : Server} {new order : List Entry}

theorem eventsOf_facts (he : RoundEffect r s new order s') {e : Entry} (h : e ∈ order) :
    VisitFacts r s.round e ⟨keptBy r s.round e, eventsOf r s.round e⟩ := by
  obtain ⟨v, hv⟩ := he.visited e h
  obtain ⟨hk, hev⟩ := keptBy_ok hv
  rw [hk, hev]
  exact visitEntry_facts hv

theorem flatMap_ite_singleton {α β : Type} (l : List α) (p : α → Bool) (f : α → β) :
    (l.flatMap fun a => if p a then [f a] else []) = (l.filter p).map f := by
  induction l with
  | nil => rfl
  | cons a l ih => cases hp : p a <;> simp [hp, ih]

theorem examined_flatMap (l : List Entry) (f : Entry → List Event) :
    examined (l.flatMap f) = l.flatMap fun e => examined (f e) := by
  simp only [examined, List.filterMap_flatMap]

theorem closed_flatMap (l : List Entry) (f : Entry → List Event) :
    closed (l.flatMap f) = l.flatMap fun e => closed (f e) := by
  simp only [closed, List.filterMap_flatMap]

theorem RoundEffect.examined (he : RoundEffect r s new order s') :
    examined (order.flatMap (eventsOf r s.round)) = order.filter (fun e => e.1.revents != 0) := by
  rw [examined_flatMap, List.flatMap_congr fun e h => (eventsOf_facts he h).examined,
    flatMap_ite_singleton, List.map_id']

theorem RoundEffect.closed (he : RoundEffect r s new order s') :
    closed (order.flatMap (eventsOf r s.round)) =
      (order.filter (goneBy r s.round)).map Entry.fd := by
  rw [closed_flatMap, List.flatMap_congr fun e h => (eventsOf_facts he h).closed,
    flatMap_ite_singleton]

theorem filter_of_idle {p : Entry → Bool} (hp : ∀ e : Entry, e.1.revents = 0 → p e = false)
    (he : RoundEffect r s new order s') :
    (order.filter p).Perm ((s.polled r).entries.filter p) := by
  have hnew : new.filter p = [] := by
    rw [List.filter_eq_nil_iff]
    intro e h
    simp [hp e (fresh_revents he.fresh e h)]
  have hperm := he.sweep.perm.filter p
  rwa [List.filter_append, hnew, List.append_nil] at hperm

theorem mem_order (he : RoundEffect r s new order s') {e : Entry} :
    e ∈ order ↔ e ∈ (s.polled r).entries ∨ e ∈ new := by
  rw [he.sweep.perm.mem_iff, List.mem_append]

theorem polled_fds (r : Round) (s : Server) :
    (s.polled r).entries.map Entry.fd = s.entries.map Entry.fd := by
  simp only [Server.entries, live, List.map_map]
  rfl

theorem fresh_fds {as : List Accepted} (h : List.Forall₂ IsFresh as new) :
    new.map Entry.fd = as.map Accepted.fd := by
  induction h with
  | nil => rfl
  | cons hab _ ih =>
    obtain ⟨old, rfl⟩ := hab
    rw [List.map_cons, List.map_cons, ih]
    rfl

theorem order_distinct (hk : FreshFds r s) (he : RoundEffect r s new order s') :
    (order.map Entry.fd).Nodup := by
  rw [(he.sweep.perm.map Entry.fd).nodup_iff, List.map_append, polled_fds, fresh_fds he.fresh]
  exact hk

theorem mem_left (he : RoundEffect r s new order s') {e' : Entry} :
    e' ∈ s'.entries ↔ ∃ e ∈ order, keptBy r s.round e = some e' := by
  rw [he.left, List.mem_filterMap]

theorem fd_mem_left (hk : FreshFds r s) (he : RoundEffect r s new order s') {e : Entry}
    (h : e ∈ order) : e.fd ∈ s'.entries.map Entry.fd ↔ goneBy r s.round e = false := by
  rw [List.mem_map]
  constructor
  · intro hm
    obtain ⟨e', hm, hfd⟩ := hm
    obtain ⟨x, hx, hkept⟩ := (mem_left he).mp hm
    have hxe : x = e :=
      List.inj_on_of_nodup_map (order_distinct hk he) hx h
        (((eventsOf_facts he hx).kept e' hkept).1.symm.trans hfd)
    subst hxe
    by_contra hg
    have hnone := (eventsOf_facts he h).gone.mpr (by simpa using hg)
    simp only at hnone
    rw [hnone] at hkept
    cases hkept
  · intro hg
    cases hkept : keptBy r s.round e with
    | none =>
      have hgone := (eventsOf_facts he h).gone.mp hkept
      rw [hg] at hgone
      cases hgone
    | some e' =>
      exact ⟨e', (mem_left he).mpr ⟨e, h, hkept⟩, ((eventsOf_facts he h).kept e' hkept).1⟩

/-- A ready client for which `do_write` ends the process. -/
def WriteExits (r : Round) (s : Server) (x : ExitStatus) : Prop :=
  ∃ e ∈ (s.polled r).entries, e.1.revents ≠ 0 ∧ e.1.revents &&& pollFailed = 0 ∧
    writeEntry r e.1.revents (readEntry r s.round e).client = .error x

end Round

/-- The `for` loop ends, and unless a handler has ended the process it has
examined every ready client once and removed exactly those that failed or were
left in `CLOSING`; what it has accepted is in the table and was not examined.
A visit that closes a stream twice counts as one that goes on. -/
theorem forLoop_examines_once (r : Round) (s : Server) (hs : s.Inv) (hk : FreshFds r s) :
    (∀ fuel, loopFuel s r ≤ fuel →
      forLoop r fuel (s.polled r) 0 = forLoop r (loopFuel s r) (s.polled r) 0) ∧
    ((∃ s' ev new, forLoop r (loopFuel s r) (s.polled r) 0 = .ok s' ∧
        s'.trace = s.trace ++ ev ∧
        (examined ev).Perm ((s.polled r).entries.filter fun e => e.1.revents != 0) ∧
        ((examined ev).map Entry.fd).Nodup ∧
        (closed ev).Perm (((s.polled r).entries.filter (goneBy r s.round)).map Entry.fd) ∧
        (closed ev).Nodup ∧
        (∀ e ∈ (s.polled r).entries,
          e.fd ∈ s'.entries.map Entry.fd ↔ goneBy r s.round e = false) ∧
        List.Forall₂ IsFresh (registeredFrom r (s.polled r) 0) new ∧
        (∀ e ∈ new, e ∈ s'.entries) ∧
        ∀ l < s.numListeners, s'.table.slot l = (s.polled r).table.slot l) ∨
      ∃ x, forLoop r (loopFuel s r) (s.polled r) 0 = .error (.exit x) ∧
        (GrowthFails r s ∨ WriteExits r s x)) := by
  rcases forLoop_round (r := r) hs.pos hs.least le_rfl with
    ⟨s', new, order, hok, he⟩ | ⟨x, hx, hwhy⟩
  · refine ⟨fun fuel hf => forLoop_mono (by rw [hok]; simp) hf, Or.inl ⟨s', _, new, hok, he.trace,
      ?_, ?_, ?_, ?_, ?_, he.fresh, ?_, he.below⟩⟩
    · rw [he.examined]
      exact filter_of_idle (fun e h0 => by simp [h0]) he
    · rw [he.examined]
      exact (order_distinct hk he).sublist (List.filter_sublist.map _)
    · rw [he.closed]
      exact (filter_of_idle (fun e h0 => by simp [goneBy, h0]) he).map _
    · rw [he.closed]
      exact (order_distinct hk he).sublist (List.filter_sublist.map _)
    · intro e hm
      exact fd_mem_left hk he ((mem_order he).mpr (Or.inl hm))
    · intro e hm
      have ho : e ∈ order := (mem_order he).mpr (Or.inr hm)
      exact (mem_left he).mpr
        ⟨e, ho, (eventsOf_facts he ho).idle (fresh_revents he.fresh e hm)⟩
  · refine ⟨fun fuel hf => forLoop_mono (by rw [hx]; simp) hf, Or.inr ⟨x, hx, ?_⟩⟩
    rcases hwhy with hg | ⟨e, hm, hex⟩
    · exact Or.inl hg
    · exact Or.inr ⟨e, hm, visitEntry_error hex⟩

/-- A machine without files, on which every memory stream can be opened. -/
def emptyEnv : Env where
  flags := ⟨false, false, false, false, false⟩
  timeReceived := ⟨[], by decide, by simp⟩
  fopen _ _ := .error .ENOENT
  fstat _ _ := none
  fread _ := []
  magicDescriptor _ := none
  gmtime _ := none
  opendir _ := .error .ENOENT
  readdir _ := []
  bodyStream := true
  outStream := true
  errorStream := true
  cgi := ⟨false, false, false, [], false, .exited 0, false⟩

def quietRound : Round where
  revents _ := 0
  accepts _ := []
  recvs _ := []
  sends _ := []
  env _ := emptyEnv

def blankClient : Client :=
  ⟨none, none, none, 0, 0, 0, 0, 0, 0, 0, 0, 0, 0, .reading, .numClientResp, [], []⟩

/-- One listener and the given client slots behind it. -/
def serverWith (entries : List Entry) : Server where
  table :=
    { pfds := fun i => ((⟨3, pollIn, 0⟩, blankClient) :: entries)[i]?.elim ⟨0, 0, 0⟩ Prod.fst
      clients := fun i => ((⟨3, pollIn, 0⟩, blankClient) :: entries)[i]?.elim blankClient Prod.snd
      fdCount := entries.length + 1
      fdSize := max initialSize (entries.length + 1) }
  numListeners := 1
  round := 0
  trace := []

theorem forLoop_examines_once_hangUp :
    let s := serverWith [(⟨7, pollIn, 0⟩, initClient blankClient 7),
      (⟨8, pollIn, 0⟩, initClient blankClient 8)]
    let r := { quietRound with revents := fun i => if i = 1 then pollHup else pollIn }
    s.Inv ∧ FreshFds r s ∧ (∀ fuel, loopFuel s r ≤ fuel →
      forLoop r fuel (s.polled r) 0 = forLoop r (loopFuel s r) (s.polled r) 0) ∧
    ∃ s' ev, forLoop r (loopFuel s r) (s.polled r) 0 = .ok s' ∧ s'.trace = s.trace ++ ev ∧
      ((examined ev).map Entry.fd).Perm [7, 8] ∧ (closed ev).Perm [7] ∧
      7 ∉ s'.entries.map Entry.fd ∧ 8 ∈ s'.entries.map Entry.fd := by
  intro s r
  have hs : s.Inv := ⟨by decide, by decide, by decide, by decide, by decide, by decide⟩
  have hk : FreshFds r s := show List.Nodup _ by decide
  obtain ⟨hfuel, hround⟩ := forLoop_examines_once r s hs hk
  refine ⟨hs, hk, hfuel, ?_⟩
  rcases hround with ⟨s', ev, new, hok, htrace, hex, -, hcl, -, hleft, -⟩ | ⟨x, hx, -⟩
  · have hready : ((s.polled r).entries.filter fun e => e.1.revents != 0).map Entry.fd = [7, 8] := by
      decide
    have hgone : ((s.polled r).entries.filter (goneBy r s.round)).map Entry.fd = [7] := by
      decide +kernel
    refine ⟨s', ev, hok, htrace, hready ▸ hex.map _, hgone ▸ hcl, ?_, ?_⟩
    · intro hm
      have hhup : ∃ e ∈ (s.polled r).entries, e.fd = 7 ∧ goneBy r s.round e = true := by
        decide +kernel
      obtain ⟨e, he, hfd, hg⟩ := hhup
      rw [(hleft e he).mp (hfd ▸ hm)] at hg
      cases hg
    · have hin : ∃ e ∈ (s.polled r).entries, e.fd = 8 ∧ goneBy r s.round e = false := by
        decide +kernel
      obtain ⟨e, he, hfd, hg⟩ := hin
      exact hfd ▸ (hleft e he).mpr hg
  · have hok : (forLoop r (loopFuel s r) (s.polled r) 0).isOk = true := by decide +kernel
    rw [hx] at hok
    cases hok

end SimpleServer
