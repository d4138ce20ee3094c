import SimpleServer.ConnectionMap

/-!
# A client among others and the same client alone

A run with any number of clients is compared with one in which a single client
connects and is told the same: its records and its events are those of the
first run up to the names of the descriptors, of the poll rounds and of the
slots. Other clients only decide in which slot a record lies and when it is
moved, and a visit sees neither. The member `timestamp` holds what `malloc`
left in the slot; it is the same throughout if it is the same at the start.
-/

namespace SimpleServer

open CString FileTree SlotArray

/-- The client to which an event of the loop or of its sockets belongs. -/
def Event.owner : Event → Option ℕ
  | .visit _ c => some c.fd
  | .sent fd _ => some fd
  | .shutdown fd => some fd
  | .close c => some c.fd
  | _ => none

def ownEvents (fd : ℕ) (ev : List Event) : List Event := ev.filter fun x => x.owner = some fd

def Server.record (s : Server) (fd : ℕ) : Option Entry := s.table.view s.numListeners fd

def Connected (fd : ℕ) (s : Server) (_ : PollAnswer) : Prop := fd ∈ s.entries.map Entry.fd

/-- All descriptors and all rounds are called the same. -/
def nameless : Relabel := ⟨fun _ => 0, fun _ => 0, id⟩

def bare : Relabel := ⟨fun _ => 0, fun _ => 0, fun _ => []⟩

/-- A client's record: what it polls for and its `Client`. -/
def Relabel.record (L : Relabel) (e : Entry) : PollMask × Client := (e.1.events, L.client e.2)

/-- From `s₁` and `t₁` on, two runs have done the same to a client. -/
structure Agrees (L : Relabel) (fd fd' : ℕ) (s₁ t₁ s t : Server) : Prop where
  record : (s.record fd).map L.record = (t.record fd').map L.record
  events : ∃ ev ev', s.trace = s₁.trace ++ ev ∧ t.trace = t₁.trace ++ ev' ∧
    (ownEvents fd ev).map L.event = (ownEvents fd' ev').map L.event

instance (fd : ℕ) (s : Server) (a : PollAnswer) : Decidable (Connected fd s a) :=
  inferInstanceAs (Decidable (fd ∈ s.entries.map Entry.fd))

/-- Two rounds tell a client the same, the second one having it in slot `n`
and nobody else connecting. -/
structure SeesSame (fd fd' n : ℕ) (s : Server) (r r' : Round) : Prop where
  revents : ∀ e ∈ (s.polled r).entries, e.fd = fd → e.1.revents = r'.revents n
  calls : TellsSame r r' fd fd'
  accepts : ∀ i, r'.accepts i = []

def NotReady (fd : ℕ) (s : Server) : PollAnswer → Prop
  | .ready r => ∀ e ∈ (s.polled r).entries, e.fd = fd → e.1.revents = 0
  | _ => True

/-- The polls of a run and those that its client `fd` sees: a poll that reports
nothing for the client may be missing. -/
inductive Mirrors (fd fd' n : ℕ) : Server → List PollAnswer → List PollAnswer → Prop
  | done (s : Server) : Mirrors fd fd' n s [] []
  | unseen {s s₁ : Server} {a : PollAnswer} {answers answers' : List PollAnswer} :
      NotReady fd s a → s.step a = .ok s₁ → Mirrors fd fd' n s₁ answers answers' →
      Mirrors fd fd' n s (a :: answers) answers'
  | seen {s s₁ : Server} {r r' : Round} {answers answers' : List PollAnswer} :
      SeesSame fd fd' n s r r' → s.step (.ready r) = .ok s₁ →
      Mirrors fd fd' n s₁ answers answers' →
      Mirrors fd fd' n s (.ready r :: answers) (.ready r' :: answers')

section Owners

variable {r : Round} {round : ℕ} {e : Entry} {v : Visit} {fd : ℕ} {ev ev' : List Event}

@[simp] theorem ownEvents_append :
    ownEvents fd (ev ++ ev') = ownEvents fd ev ++ ownEvents fd ev' := List.filter_append _ _

theorem closeEvents_owner (c : Client) :
    ∀ x ∈ closeEvents c, x.owner = none ∨ x.owner = some c.fd := by
  simp only [closeEvents]
  cases c.filePtr <;> simp [Event.owner]

theorem readEntry_owner : ∀ x ∈ (readEntry r round e).events, x.owner = none := by
  intro x hx
  rcases readEntry_events x hx with hs | ⟨line, rfl⟩
  · cases x <;> first | rfl | cases hs
  · rfl

theorem writeEntry_owner {revents : PollMask} {c : Client} {w : WriteOutcome}
    (h : writeEntry r revents c = .ok w) : ∀ x ∈ w.events, x.owner = some c.fd := by
  intro x hx
  simp only [writeEntry] at h
  split_ifs at h
  · rcases (doWrite_ok h).2.2.2 x hx with ⟨bytes, rfl⟩ | rfl
    · rfl
    · rfl
  · cases h
    cases hx

theorem visitEntry_owner (h : visitEntry r round e = .ok v) :
    ∀ x ∈ v.events, x.owner = none ∨ x.owner = some e.fd := by
  have hread : ∀ x ∈ Event.visit e.1 e.2 :: (readEntry r round e).events,
      x.owner = none ∨ x.owner = some e.fd := by
    intro x hx
    rcases List.mem_cons.mp hx with rfl | hx
    · exact Or.inr rfl
    · exact Or.inl (readEntry_owner x hx)
  have hfd : (readEntry r round e).client.fd = e.fd := readEntry_fd.1
  intro x hx
  cases visitEntry_cases h with
  | idle h0 => cases hx
  | failed h0 h1 =>
    rcases List.mem_cons.mp hx with rfl | hx
    · exact Or.inr rfl
    · exact closeEvents_owner e.2 x hx
  | closing w h0 hz hw hc =>
    rw [← List.cons_append, List.append_assoc] at hx
    rcases List.mem_append.mp hx with hx | hx
    · exact hread x hx
    · rcases List.mem_append.mp hx with hx | hx
      · exact Or.inr ((writeEntry_owner hw x hx).trans (congrArg some hfd))
      · rw [← hfd, ← writeEntry_fd hw]
        exact closeEvents_owner w.client x hx
  | kept w h0 hz hw hc =>
    rw [← List.cons_append] at hx
    rcases List.mem_append.mp hx with hx | hx
    · exact hread x hx
    · exact Or.inr ((writeEntry_owner hw x hx).trans (congrArg some hfd))

theorem ownEvents_visit (h : visitEntry r round e = .ok v) :
    ownEvents e.fd v.events = v.events.filter fun x => x.owner.isSome := by
  apply List.filter_congr
  intro x hx
  rcases visitEntry_owner h x hx with hn | hs
  · rw [hn]
    rfl
  · rw [hs]
    simp

theorem ownEvents_other (h : visitEntry r round e = .ok v) (hne : e.fd ≠ fd) :
    ownEvents fd v.events = [] := by
  rw [ownEvents, List.filter_eq_nil_iff]
  intro x hx
  rcases visitEntry_owner h x hx with hn | hs
  · rw [hn]
    simp
  · rw [hs]
    simpa using hne

end Owners

theorem flatMap_of_unique {α β : Type} {f : α → List β} {l : List α} {a : α} (ha : a ∈ l)
    (hn : l.Nodup) (h : ∀ b ∈ l, b ≠ a → f b = []) : l.flatMap f = f a := by
  obtain ⟨l₁, l₂, rfl⟩ := List.append_of_mem ha
  rw [List.nodup_middle, List.nodup_cons, List.mem_append] at hn
  have hnil : ∀ l' : List α, (∀ b ∈ l', b ∈ l₁ ∨ b ∈ l₂) → l'.flatMap f = [] := by
    intro l' hl
    rw [List.flatMap_eq_nil_iff]
    intro b hb
    have hne : b ≠ a := fun hba => hn.1 (hba ▸ hl b hb)
    refine h b ?_ hne
    rcases hl b hb with hb | hb
    · exact List.mem_append_left _ hb
    · exact List.mem_append_right _ (List.mem_cons_of_mem _ hb)
  rw [List.flatMap_append, List.flatMap_cons, hnil l₁ fun b hb => Or.inl hb,
    hnil l₂ fun b hb => Or.inr hb, List.nil_append, List.append_nil]

section Round

variable {r r' : Round} {s s' t : Server} {e e' : Entry} {fd fd' n : ℕ}

theorem record_eq_some (hs : s.Inv) : s.record fd = some e ↔ e ∈ s.entries ∧ e.fd = fd :=
  view_eq_some hs.distinct

theorem round_client (hs : s.Inv) (hk : FreshFds r s) {new order : List Entry}
    (he : RoundEffect r s new order s') (h : e ∈ order) :
    s'.record e.fd = keptBy r s.round e ∧
      ownEvents e.fd (order.flatMap (eventsOf r s.round)) =
        ownEvents e.fd (eventsOf r s.round e) := by
  have hd := order_distinct hk he
  -- of the entries the round visits, no other one has this descriptor
  have hsame : ∀ x ∈ order, x.fd = e.fd → x = e := fun x hx => List.inj_on_of_nodup_map hd hx h
  refine ⟨?_, ?_⟩
  · apply Option.ext
    intro x
    rw [record_eq_some (he.inv hs hk), mem_left he]
    constructor
    · intro hx
      obtain ⟨⟨y, hy, hkept⟩, hfd⟩ := hx
      have hye := hsame y hy (((eventsOf_facts he hy).kept x hkept).1.symm.trans hfd)
      rw [← hye]
      exact hkept
    · intro hkept
      exact ⟨⟨e, h, hkept⟩, ((eventsOf_facts he h).kept x hkept).1⟩
  · rw [ownEvents, List.filter_flatMap]
    refine flatMap_of_unique h (hd.of_map _) fun x hx hne => ?_
    obtain ⟨v, hv⟩ := he.visited x hx
    rw [(keptBy_ok hv).2]
    exact ownEvents_other hv fun hfd => hne (hsame x hx hfd)

theorem record_polled (hs : s.Inv) (h : s.record fd = some e) (r : Round) :
    ∃ m, ({ e.1 with revents := m }, e.2) ∈ (s.polled r).entries :=
  entry_polled r ((record_eq_some hs).mp h).1

theorem client_step (hs : s.Inv) (hk : FreshFds r s) (hr : s.record fd = some e)
    (h : s.step (.ready r) = .ok s') :
    ∃ m v, ({ e.1 with revents := m }, e.2) ∈ (s.polled r).entries ∧
      visitEntry r s.round ({ e.1 with revents := m }, e.2) = .ok v ∧ s'.record fd = v.kept ∧
      ∃ ev, s'.trace = s.trace ++ ev ∧ ownEvents fd ev = ownEvents fd v.events := by
  obtain ⟨m, hm⟩ := record_polled hs hr r
  obtain ⟨s₁, new, order, rfl, he⟩ := pollRound_ok hs.pos hs.least h
  have hord := (mem_order he).mpr (Or.inl hm)
  obtain ⟨v, hv⟩ := he.visited _ hord
  obtain ⟨hrec, hown⟩ := round_client hs hk he hord
  rw [(keptBy_ok hv).1] at hrec
  rw [(keptBy_ok hv).2] at hown
  have hfd : Entry.fd ({ e.1 with revents := m }, e.2) = fd := ((record_eq_some hs).mp hr).2
  rw [hfd] at hrec hown
  exact ⟨m, v, hm, hv, hrec, _, he.trace, hown⟩

theorem Relabel.entry_of_record {L : Relabel} (hL : ∀ n m, L.fd n = L.fd m) (m : PollMask)
    (h : L.record e = L.record e') :
    L.entry ({ e.1 with revents := m }, e.2) = L.entry ({ e'.1 with revents := m }, e'.2) := by
  have hev : e.1.events = e'.1.events := congrArg Prod.fst h
  have hc : L.client e.2 = L.client e'.2 := congrArg Prod.snd h
  simp only [Relabel.entry, Relabel.pollFd, hc, hev, hL e.1.fd e'.1.fd]

theorem Relabel.map_record (L : Relabel) (o : Option Entry) :
    o.map L.record = (o.map L.entry).map fun x => (x.1.events, x.2) := by
  cases o <;> rfl

theorem visitEntry_alike {L : Relabel} (hL : ∀ n m, L.round n = L.round m) {n m : ℕ}
    (h : L.entry e = L.entry e')
    (ht : TellsSame r r' e.fd e'.fd) :
    (visitEntry r n e).map L.visit = (visitEntry r' m e').map L.visit := by
  -- a round that tells everybody what the two clients are told
  let r₀ : Round := ⟨fun _ => 0, fun _ => [], fun _ => r.recvs e.fd, fun _ => r.sends e.fd,
    fun _ => r.env e.fd⟩
  have h1 : visitEntry r₀ (L.round n) (L.entry e) = (visitEntry r n e).map L.visit :=
    L.visitEntry_relabel ⟨rfl, rfl, rfl⟩
  have h2 : visitEntry r₀ (L.round m) (L.entry e') = (visitEntry r' m e').map L.visit :=
    L.visitEntry_relabel ⟨ht.recvs.symm, ht.sends.symm, ht.env.symm⟩
  rw [← h1, ← h2, h, hL n m]

theorem Relabel.owner_event (L : Relabel) (x : Event) :
    (L.event x).owner.isSome = x.owner.isSome := by
  cases x <;> rfl

theorem ownEvents_alike {L : Relabel} {v v' : Visit} {n m : ℕ} (h : visitEntry r n e = .ok v)
    (h' : visitEntry r' m e' = .ok v') (hv : v.events.map L.event = v'.events.map L.event) :
    (ownEvents e.fd v.events).map L.event = (ownEvents e'.fd v'.events).map L.event := by
  have hf : ∀ ev : List Event, (ev.filter fun x => x.owner.isSome).map L.event =
      (ev.map L.event).filter fun x => x.owner.isSome := by
    intro ev
    rw [List.filter_map]
    congr 1
    exact List.filter_congr fun x _ => (L.owner_event x).symm
  rw [ownEvents_visit h, ownEvents_visit h', hf, hf, hv]

end Round

structure Solo (fd n : ℕ) (t : Server) : Prop where
  inv : t.Inv
  listeners : t.numListeners = n
  only : ∀ e ∈ t.entries, e.fd = fd

section Solo

variable {r : Round} {t : Server} {e : Entry} {fd n : ℕ}

theorem Solo.count (h : Solo fd n t) : t.table.fdCount ≤ n + 1 := by
  have hrep : t.entries.map Entry.fd = List.replicate t.entries.length fd := by
    rw [List.eq_replicate_iff]
    refine ⟨List.length_map _, fun x hx => ?_⟩
    obtain ⟨e, he, rfl⟩ := List.mem_map.mp hx
    exact h.only e he
  have hd : (t.entries.map Entry.fd).Nodup := h.inv.distinct
  rw [hrep, List.nodup_replicate, Server.entries, live_length, h.listeners] at hd
  omega

theorem Solo.polled (h : Solo fd n t) (hr : t.record fd = some e) {x : Entry}
    (hx : x ∈ (t.polled r).entries) : x = ({ e.1 with revents := r.revents n }, e.2) := by
  have hc := h.count
  have hl := h.listeners
  obtain ⟨i, h1, h2, rfl⟩ := mem_live.mp ((record_eq_some h.inv).mp hr).1
  obtain ⟨j, h3, h4, rfl⟩ := mem_live.mp hx
  change t.numListeners ≤ j at h3
  change j < t.table.fdCount at h4
  obtain ⟨rfl, rfl⟩ : i = n ∧ j = n := by omega
  simp [Table.slot, Server.polled, h4]

theorem Solo.step (h : Solo fd n t) (hr : t.record fd = some e) (ha : ∀ i, r.accepts i = [])
    {v : Visit}
    (hv : visitEntry r t.round ({ e.1 with revents := r.revents n }, e.2) = .ok v) :
    ∃ t', t.step (.ready r) = .ok t' ∧ Solo fd n t' ∧ t'.record fd = v.kept ∧
      ∃ ev, t'.trace = t.trace ++ ev ∧ ownEvents fd ev = ownEvents fd v.events := by
  have hefd : e.fd = fd := ((record_eq_some h.inv).mp hr).2
  have hnone : registeredFrom r (t.polled r) 0 = [] := by simp [registeredFrom, ha, registered]
  have hk : FreshFds r t := by
    rw [FreshFds, hnone, List.map_nil, List.append_nil]
    exact h.inv.distinct
  cases hp : pollRound t r with
  | error x =>
    obtain ⟨y, -, ⟨i, -, a, hmem, -⟩ | ⟨x, hx, hex⟩⟩ := pollRound_error h.inv.pos h.inv.least hp
    · rw [ha i] at hmem
      cases hmem
    · rw [h.polled hr hx, hv] at hex
      cases hex
  | ok t' =>
    obtain ⟨m, v', hm, hv', hrec, hev⟩ := client_step h.inv hk hr hp
    rw [h.polled hr hm, hv] at hv'
    cases hv'
    have hinv : t'.Inv := step_inv (a := .ready r) h.inv hk hp
    refine ⟨t', hp, ⟨hinv, ?_, ?_⟩, hrec, hev⟩
    · obtain ⟨t₁, new, order, rfl, he⟩ := pollRound_ok h.inv.pos h.inv.least hp
      exact he.listeners.trans h.listeners
    · obtain ⟨t₁, new, order, rfl, he⟩ := pollRound_ok h.inv.pos h.inv.least hp
      intro x hx
      obtain ⟨y, hy, hkept⟩ := (mem_left he).mp hx
      rcases (mem_order he).mp hy with hy' | hy'
      · rw [((eventsOf_facts he hy).kept x hkept).1, h.polled hr hy']
        exact hefd
      · have hfresh := he.fresh
        rw [hnone] at hfresh
        cases hfresh
        cases hy'

end Solo

section Simulation

variable {L : Relabel} {r r' : Round} {a : PollAnswer} {s₁ t₁ s s' t : Server} {e : Entry}
  {fd fd' n : ℕ} {answers answers' : List PollAnswer}

theorem Agrees.refl (h : (s₁.record fd).map L.record = (t₁.record fd').map L.record) :
    Agrees L fd fd' s₁ t₁ s₁ t₁ :=
  ⟨h, [], [], (List.append_nil _).symm, (List.append_nil _).symm, rfl⟩

theorem Agrees.unseen (hs : s.Inv) (hk : NewFdsFresh s a) (hr : s.record fd = some e)
    (hn : NotReady fd s a) (h : s.step a = .ok s') (hag : Agrees L fd fd' s₁ t₁ s t) :
    Agrees L fd fd' s₁ t₁ s' t := by
  cases a with
  | eintr =>
    cases h
    exact hag
  | fatal => cases h
  | ready r =>
    obtain ⟨m, v, hm, hv, hrec, ev, htrace, hown⟩ := client_step hs hk hr h
    -- the visit is idle: it leaves the record as it is, and no event
    have h0 : m = 0 := hn _ hm ((record_eq_some hs).mp hr).2
    rw [visitEntry_idle h0] at hv
    cases hv
    obtain ⟨ev₀, ev', hs₀, ht₀, hev⟩ := hag.events
    refine ⟨?_, ev₀ ++ ev, ev', ?_, ht₀, ?_⟩
    · rw [hrec, ← hag.record, hr]
      rfl
    · rw [htrace, hs₀, List.append_assoc]
    · rw [ownEvents_append, hown, ← hev]
      exact congrArg (List.map L.event) (List.append_nil _)

theorem Agrees.seen (hfd : ∀ n m, L.fd n = L.fd m) (hround : ∀ n m, L.round n = L.round m)
    (hs : s.Inv) (hk : FreshFds r s) (hr : s.record fd = some e)
    (hsame : SeesSame fd fd' n s r r') (h : s.step (.ready r) = .ok s') (ht : Solo fd' n t)
    (hag : Agrees L fd fd' s₁ t₁ s t) :
    ∃ t', t.step (.ready r') = .ok t' ∧ Solo fd' n t' ∧ Agrees L fd fd' s₁ t₁ s' t' := by
  obtain ⟨m, v, hm, hv, hrec, ev, htrace, hown⟩ := client_step hs hk hr h
  have hefd : e.fd = fd := ((record_eq_some hs).mp hr).2
  have hrev : m = r'.revents n := hsame.revents _ hm hefd
  obtain ⟨e', hr', hee⟩ : ∃ e', t.record fd' = some e' ∧ L.record e = L.record e' := by
    have hrecord := hag.record
    rw [hr, Option.map_some, eq_comm, Option.map_eq_some_iff] at hrecord
    obtain ⟨e', he', hee⟩ := hrecord
    exact ⟨e', he', hee.symm⟩
  have hefd' : e'.fd = fd' := ((record_eq_some ht.inv).mp hr').2
  have hcalls : TellsSame r r' e.fd e'.fd := by
    rw [hefd, hefd']
    exact hsame.calls
  have halike : (visitEntry r s.round ({ e.1 with revents := m }, e.2)).map L.visit =
      (visitEntry r' t.round ({ e'.1 with revents := m }, e'.2)).map L.visit :=
    visitEntry_alike hround (L.entry_of_record hfd m hee) hcalls
  rw [hv] at halike
  cases hv' : visitEntry r' t.round ({ e'.1 with revents := m }, e'.2) with
  | error x =>
    rw [hv'] at halike
    cases halike
  | ok v' =>
    rw [hv'] at halike
    -- both visits are ok, and keep and emit the same up to the names
    have hvis : L.visit v = L.visit v' := Except.ok.inj halike
    have hkept : v.kept.map L.entry = v'.kept.map L.entry := congrArg Visit.kept hvis
    have hevs : v.events.map L.event = v'.events.map L.event := congrArg Visit.events hvis
    obtain ⟨t', hstep, ht', hrec', ev₁, htrace', hown'⟩ :=
      ht.step hr' hsame.accepts (hrev ▸ hv')
    obtain ⟨ev₀, ev₀', hs₀, ht₀, hev⟩ := hag.events
    refine ⟨t', hstep, ht', ?_, ev₀ ++ ev, ev₀' ++ ev₁, ?_, ?_, ?_⟩
    · rw [hrec, hrec', L.map_record, L.map_record, hkept]
    · rw [htrace, hs₀, List.append_assoc]
    · rw [htrace', ht₀, List.append_assoc]
    · have hnow := ownEvents_alike hv hv' hevs
      change (ownEvents e.fd v.events).map L.event = (ownEvents e'.fd v'.events).map L.event at hnow
      rw [hefd, hefd'] at hnow
      rw [ownEvents_append, ownEvents_append, List.map_append, List.map_append, hev, hown, hown',
        hnow]

/-- The run in which the client is alone does not end, and what it does to the
client is what the other run does. -/
theorem Mirrors.agrees (hfd : ∀ n m, L.fd n = L.fd m) (hround : ∀ n m, L.round n = L.round m)
    (hm : Mirrors fd fd' n s answers answers') (hs : s.Inv)
    (hf : Run.Along Server.step NewFdsFresh s answers)
    (hc : Run.Along Server.step (Connected fd) s answers)
    (h : eventLoop s answers = .ok s') (ht : Solo fd' n t)
    (hag : Agrees L fd fd' s₁ t₁ s t) :
    ∃ t', eventLoop t answers' = .ok t' ∧ Solo fd' n t' ∧ Agrees L fd fd' s₁ t₁ s' t' := by
  have hrecord : ∀ {s : Server}, s.Inv → fd ∈ s.entries.map Entry.fd →
      ∃ e, s.record fd = some e := by
    intro s hs hc
    obtain ⟨e, he, hefd⟩ := List.mem_map.mp hc
    exact ⟨e, (record_eq_some hs).mpr ⟨he, hefd⟩⟩
  induction hm generalizing t with
  | done s =>
    cases h
    exact ⟨t, rfl, ht, hag⟩
  | @unseen s s₂ a answers answers' hn hstep _ ih =>
    obtain ⟨s₃, h1, h2⟩ := Run.run_cons_ok h
    rw [hstep] at h1
    cases h1
    obtain ⟨e, he⟩ := hrecord hs hc.1
    exact ih (step_inv hs hf.1 hstep) (hf.2 s₂ hstep) (hc.2 s₂ hstep) h2 ht
      (hag.unseen hs hf.1 he hn hstep)
  | @seen s s₂ r r' answers answers' hsame hstep _ ih =>
    obtain ⟨s₃, h1, h2⟩ := Run.run_cons_ok h
    rw [hstep] at h1
    cases h1
    obtain ⟨e, he⟩ := hrecord hs hc.1
    obtain ⟨t₂, hstep', ht₂, hag₂⟩ := hag.seen hfd hround hs hf.1 he hsame hstep ht
    obtain ⟨t', hloop, hrest⟩ :=
      ih (step_inv (a := .ready r) hs hf.1 hstep) (hf.2 s₂ hstep) (hc.2 s₂ hstep) h2 ht₂ hag₂
    refine ⟨t', ?_, hrest⟩
    rw [eventLoop, List.foldlM_cons, hstep']
    exact hloop

def soloRound (n : ℕ) (m : PollMask) (r : Round) (fd : ℕ) : Round where
  revents i := if i = n then m else 0
  accepts _ := []
  recvs _ := r.recvs fd
  sends _ := r.sends fd
  env _ := r.env fd

theorem mirrors_exists (fd' n : ℕ) (hs : s.Inv)
    (hf : Run.Along Server.step NewFdsFresh s answers)
    (hc : Run.Along Server.step (Connected fd) s answers) (h : eventLoop s answers = .ok s') :
    ∃ answers', Mirrors fd fd' n s answers answers' := by
  induction answers generalizing s with
  | nil => exact ⟨[], .done s⟩
  | cons a answers ih =>
    obtain ⟨s₂, h1, h2⟩ := Run.run_cons_ok h
    obtain ⟨answers', hm⟩ := ih (step_inv hs hf.1 h1) (hf.2 s₂ h1) (hc.2 s₂ h1) h2
    cases a with
    | eintr => exact ⟨answers', .unseen trivial h1 hm⟩
    | fatal => cases h1
    | ready r =>
      obtain ⟨e, he, hefd⟩ := List.mem_map.mp hc.1
      obtain ⟨m, hp⟩ := entry_polled r he
      have hd : ((s.polled r).entries.map Entry.fd).Nodup := by
        rw [polled_fds]
        exact hs.distinct
      refine ⟨.ready (soloRound n m r fd) :: answers',
        .seen ⟨fun x hx hxfd => ?_, ⟨rfl, rfl, rfl⟩, fun _ => rfl⟩ h1 hm⟩
      have hxe := List.inj_on_of_nodup_map hd hx hp (hxfd.trans hefd.symm)
      rw [hxe]
      exact (if_pos rfl).symm

end Simulation

section Accept

variable {L : Relabel} {r : Round} {s s₁ t : Server} {a a' : Accepted} {e e' : Entry}

theorem fresh_of_mem {as : List Accepted} {new : List Entry} (h : List.Forall₂ IsFresh as new)
    (ha : a ∈ as) : ∃ e ∈ new, IsFresh a e := by
  induction h with
  | nil => cases ha
  | @cons b e as new hb _ ih =>
    rcases List.mem_cons.mp ha with rfl | ha
    · exact ⟨e, List.mem_cons_self, hb⟩
    · obtain ⟨x, hx, hax⟩ := ih ha
      exact ⟨x, List.mem_cons_of_mem _ hx, hax⟩

theorem accepted_record (hs : s.Inv) (hk : FreshFds r s)
    (ha : a ∈ registeredFrom r (s.polled r) 0) (h : s.step (.ready r) = .ok s₁) :
    ∃ e, s₁.record a.fd = some e ∧ IsFresh a e := by
  have hinv : s₁.Inv := step_inv (a := .ready r) hs hk h
  obtain ⟨s', new, order, rfl, he⟩ := pollRound_ok hs.pos hs.least h
  obtain ⟨e, hm, hfr⟩ := fresh_of_mem he.fresh ha
  have ho : e ∈ order := (mem_order he).mpr (Or.inr hm)
  have hleft : e ∈ s'.entries := (mem_left he).mpr
    ⟨e, ho, (eventsOf_facts he ho).idle (fresh_revents he.fresh e hm)⟩
  have hfd : e.fd = a.fd := by
    obtain ⟨old, rfl⟩ := hfr
    rfl
  exact ⟨e, (record_eq_some hinv).mpr ⟨hleft, hfd⟩, hfr⟩

theorem fresh_alike (hL : ∀ n m, L.fd n = L.fd m) (h : IsFresh a e) (h' : IsFresh a' e')
    (haddr : a'.addr = a.addr)
    (hts : L.timestamp e.2.timestamp = L.timestamp e'.2.timestamp) :
    L.record e = L.record e' := by
  obtain ⟨old, rfl⟩ := h
  obtain ⟨old', rfl⟩ := h'
  simp only [initClient] at hts
  simp only [Relabel.record, Relabel.client, initClient, haddr, hts, hL a.fd a'.fd]

theorem setup_entries {pfds : ℕ → PollFd} {clients : ℕ → Client} {v4 v6 : Option ℕ}
    (h : setup pfds clients v4 v6 = .ok s) : s.entries = [] :=
  List.eq_nil_iff_forall_not_mem.mpr fun e he => (setup_entrywise (Q := fun _ => False) h).all e he

theorem solo_accept (hs : s.Inv) (hempty : s.entries = [])
    (ha : registeredFrom r (s.polled r) 0 = [a]) (h : s.step (.ready r) = .ok s₁) :
    FreshFds r s ∧ Solo a.fd s.numListeners s₁ := by
  have hk : FreshFds r s := by
    rw [FreshFds, hempty, ha]
    exact List.nodup_singleton _
  have hinv : s₁.Inv := step_inv (a := .ready r) hs hk h
  obtain ⟨s', new, order, rfl, he⟩ := pollRound_ok hs.pos hs.least h
  refine ⟨hk, hinv, he.listeners, fun x hx => ?_⟩
  obtain ⟨y, hy, hkept⟩ := (mem_left he).mp hx
  rw [((eventsOf_facts he hy).kept x hkept).1]
  have hfds : (s.polled r).entries.map Entry.fd = [] := by rw [polled_fds, hempty]; rfl
  have hnew := fresh_fds he.fresh
  rw [ha, List.map_cons, List.map_nil] at hnew
  have hmem : y.fd ∈ (s.polled r).entries.map Entry.fd ++ new.map Entry.fd := by
    rw [← List.map_append]
    exact List.mem_map_of_mem (List.mem_append.mpr ((mem_order he).mp hy))
  rw [hfds, hnew] at hmem
  exact List.mem_singleton.mp hmem

end Accept

/-- Whatever other clients do before, while and after a client is connected,
its records and its events are those it has when it is the only client and is
told the same: they agree up to the names of descriptors and rounds and the
bytes that `malloc` left in `timestamp`, and entirely if those are the same.
The run in which it is alone exists and does not end the process. -/
theorem client_alone_agrees {pfds pfds' : ℕ → PollFd} {clients clients' : ℕ → Client}
    {v4 v6 v4' v6' : Option ℕ} {s₀ s s₁ s₂ t₀ t₁ : Server} {before after : List PollAnswer}
    {r r' : Round} {a a' : Accepted} (h0 : setup pfds clients v4 v6 = .ok s₀)
    (hf : Run.Along Server.step NewFdsFresh s₀ before) (hbefore : eventLoop s₀ before = .ok s)
    (hk : FreshFds r s) (ha : a ∈ registeredFrom r (s.polled r) 0)
    (hr : s.step (.ready r) = .ok s₁) (hf₁ : Run.Along Server.step NewFdsFresh s₁ after)
    (hc : Run.Along Server.step (Connected a.fd) s₁ after) (hafter : eventLoop s₁ after = .ok s₂)
    (h0' : setup pfds' clients' v4' v6' = .ok t₀)
    (ha' : registeredFrom r' (t₀.polled r') 0 = [a']) (haddr : a'.addr = a.addr)
    (hr' : t₀.step (.ready r') = .ok t₁) :
    (∃ after', Mirrors a.fd a'.fd t₀.numListeners s₁ after after') ∧
      ∀ after', Mirrors a.fd a'.fd t₀.numListeners s₁ after after' →
        ∃ t₂, eventLoop t₁ after' = .ok t₂ ∧ (∀ e ∈ t₂.entries, e.fd = a'.fd) ∧
          Agrees bare a.fd a'.fd s₁ t₁ s₂ t₂ ∧
          ((s₁.record a.fd).map (fun e => e.2.timestamp) =
              (t₁.record a'.fd).map (fun e => e.2.timestamp) →
            Agrees nameless a.fd a'.fd s₁ t₁ s₂ t₂) := by
  have hs := eventLoop_inv h0 hf hbefore
  have hs₁ : s₁.Inv := step_inv (a := .ready r) hs hk hr
  obtain ⟨e, he, hfr⟩ := accepted_record hs hk ha hr
  obtain ⟨hk', hsolo⟩ := solo_accept (setup_inv h0') (setup_entries h0') ha' hr'
  obtain ⟨e', he', hfr'⟩ := accepted_record (setup_inv h0') hk'
    (by rw [ha']; exact List.mem_singleton_self a') hr'
  refine ⟨mirrors_exists a'.fd t₀.numListeners hs₁ hf₁ hc hafter, fun after' hm => ?_⟩
  have hbare : Agrees bare a.fd a'.fd s₁ t₁ s₁ t₁ := by
    apply Agrees.refl
    rw [he, he', Option.map_some, Option.map_some]
    exact congrArg some (fresh_alike (fun _ _ => rfl) hfr hfr' haddr rfl)
  obtain ⟨t₂, hrun, hsolo₂, hag⟩ :=
    hm.agrees (fun _ _ => rfl) (fun _ _ => rfl) hs₁ hf₁ hc hafter hsolo hbare
  refine ⟨t₂, hrun, hsolo₂.only, hag, fun hts => ?_⟩
  have hnameless : Agrees nameless a.fd a'.fd s₁ t₁ s₁ t₁ := by
    apply Agrees.refl
    rw [he, he', Option.map_some, Option.map_some, Option.some.injEq] at hts
    rw [he, he', Option.map_some, Option.map_some]
    exact congrArg some (fresh_alike (fun _ _ => rfl) hfr hfr' haddr hts)
  obtain ⟨t₃, hrun', -, hag'⟩ :=
    hm.agrees (fun _ _ => rfl) (fun _ _ => rfl) hs₁ hf₁ hc hafter hsolo hnameless
  rw [hrun] at hrun'
  cases hrun'
  exact hag'

def serveAll : List PollAnswer :=
  [.ready (readRound listingEnv getRoot), .ready (writeRound [.ret 10000])]

/-- Of two clients the first is closed while the second one's response is still
to be sent, and the second is moved into its slot. -/
theorem client_alone_agrees_moved :
    ∃ s₁ s₂ t₁ t₂, startServer.step (.ready (acceptRound [7, 8])) = .ok s₁ ∧
      eventLoop s₁ serveAll = .ok s₂ ∧ startServer.step (.ready (acceptRound [5])) = .ok t₁ ∧
      eventLoop t₁ serveAll = .ok t₂ ∧ Agrees nameless 8 5 s₁ t₁ s₂ t₂ ∧
      ownEvents 8 s₂.trace ≠ [] := by
  obtain ⟨s₁, hs₁, hp⟩ := Run.arrives_iff.mp (show Run.arrives (fun s₁ =>
    decide (Run.Along Server.step NewFdsFresh s₁ serveAll) &&
    decide (Run.Along Server.step (Connected 8) s₁ serveAll) &&
    decide ((s₁.record 8).map (fun e => e.2.timestamp) = some []) &&
    decide (∀ e ∈ (s₁.polled (readRound listingEnv getRoot)).entries,
      e.fd = 8 → e.1.revents = pollIn) &&
    Run.arrives (fun s => decide (∀ e ∈ (s.polled (writeRound [.ret 10000])).entries,
      e.fd = 8 → e.1.revents = pollOut) &&
      Run.arrives (fun s₂ => decide (ownEvents 8 s₂.trace ≠ []))
        (s.step (.ready (writeRound [.ret 10000]))))
      (s₁.step (.ready (readRound listingEnv getRoot))))
    (startServer.step (.ready (acceptRound [7, 8]))) = true by decide +kernel)
  simp only [Bool.and_eq_true, decide_eq_true_eq, Run.arrives_iff] at hp
  obtain ⟨⟨⟨⟨hf, hc⟩, hts⟩, hrd⟩, s, hstep, hwr, s₂, hstep₂, hown⟩ := hp
  obtain ⟨t₁, ht₁, hts'⟩ := Run.arrives_iff.mp (show Run.arrives (fun t₁ =>
    decide ((t₁.record 5).map (fun e => e.2.timestamp) = some []))
    (startServer.step (.ready (acceptRound [5]))) = true by decide +kernel)
  have hrun : eventLoop s₁ serveAll = .ok s₂ := by
    rw [eventLoop, serveAll, List.foldlM_cons, hstep]
    change (List.foldlM _ s _) = _
    rw [List.foldlM_cons, hstep₂]
    rfl
  have hm : Mirrors 8 5 1 s₁ serveAll serveAll :=
    .seen ⟨hrd, ⟨rfl, rfl, rfl⟩, fun _ => rfl⟩ hstep
      (.seen ⟨hwr, ⟨rfl, rfl, rfl⟩, fun _ => rfl⟩ hstep₂ (.done s₂))
  have hk : FreshFds (acceptRound [7, 8]) startServer := show List.Nodup _ by decide +kernel
  have ha : (⟨8, true, ⟨true, true⟩, none⟩ : Accepted) ∈ registeredFrom (acceptRound [7, 8])
      (startServer.polled (acceptRound [7, 8])) 0 := List.mem_cons_of_mem _ List.mem_cons_self
  have ha' : registeredFrom (acceptRound [5]) (startServer.polled (acceptRound [5])) 0 =
      [⟨5, true, ⟨true, true⟩, none⟩] := rfl
  have hf₀ : Run.Along Server.step NewFdsFresh startServer [] := trivial
  obtain ⟨-, hall⟩ := client_alone_agrees setup_startServer hf₀ rfl hk ha hs₁ hf hc hrun
    setup_startServer ha' rfl ht₁
  obtain ⟨t₂, ht₂, -, -, hag⟩ := hall serveAll hm
  exact ⟨s₁, s₂, t₁, t₂, hs₁, hrun, ht₁, ht₂,
    hag (hts.trans (of_decide_eq_true hts').symm), hown⟩

end SimpleServer
