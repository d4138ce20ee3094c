import SimpleServer.Dispatch

/-!
# What holds in every state in which `poll` is called

Runs start from `setup` and take one answer of `poll` after the other. The
table invariant is kept by every round in which the kernel hands out fresh
descriptors. A property of single entries that fresh entries have and visits
keep holds of every live client along the run (`eventLoop_entrywise`).
-/

namespace SimpleServer

open CString FileTree SlotArray

section Invariant

variable {r : Round} {s s' : Server}

theorem setup_inv {pfds : ℕ → PollFd} {clients : ℕ → Client} {v4 v6 : Option ℕ}
    (h : setup pfds clients v4 v6 = .ok s) : s.Inv := by
  simp only [setup] at h
  split_ifs at h with hl
  cases h
  refine ⟨Nat.pos_of_ne_zero hl, le_rfl, Nat.zero_lt_succ 31, ?_, ?_, ?_⟩
  · cases v4 <;> cases v6 <;> simp [initialSize]
  · rw [live_of_le le_rfl]
    simp
  · rw [live_of_le le_rfl]
    simp

theorem setup_trace {pfds : ℕ → PollFd} {clients : ℕ → Client} {v4 v6 : Option ℕ}
    (h : setup pfds clients v4 v6 = .ok s) : s.trace = [] := by
  simp only [setup] at h
  split_ifs at h
  cases h
  rfl

theorem polled_paired (hs : s.Inv) : ∀ e ∈ (s.polled r).entries, e.1.fd = e.2.fd := by
  intro e he
  obtain ⟨i, h1, h2, rfl⟩ := mem_live.mp he
  have hp := hs.paired _ (mem_live.mpr ⟨i, h1, h2, rfl⟩)
  have hi : i < s.table.fdCount := h2
  simpa [Table.slot, Server.polled, hi] using hp

theorem fresh_paired {as : List Accepted} {new : List Entry} (h : List.Forall₂ IsFresh as new) :
    ∀ e ∈ new, e.1.fd = e.2.fd := by
  refine fresh_all (fun a _ e he => ?_) h
  obtain ⟨old, rfl⟩ := he
  rfl

theorem RoundEffect.inv {new order : List Entry} (hs : s.Inv) (hk : FreshFds r s)
    (he : RoundEffect r s new order s') : s'.Inv := by
  have hfit := he.fits hs.fits hs.room
  refine ⟨he.listeners ▸ hs.pos, he.listeners ▸ he.least, hfit.2, hfit.1, ?_, ?_⟩
  · intro e' hm
    obtain ⟨e, ho, hkept⟩ := (mem_left he).mp hm
    obtain ⟨h2, h1⟩ := (eventsOf_facts he ho).kept e' hkept
    have hp : e.1.fd = e.2.fd := by
      rcases (mem_order he).mp ho with h | h
      · exact polled_paired hs e h
      · exact fresh_paired he.fresh e h
    exact h1.trans (hp.trans h2.symm)
  · refine List.Nodup.sublist ?_ (order_distinct hk he)
    change (s'.entries.map Entry.fd).Sublist _
    rw [he.left]
    have hfd : ∀ e ∈ order, ∀ e', keptBy r s.round e = some e' → e'.fd = e.fd :=
      fun e ho e' hkept => ((eventsOf_facts he ho).kept e' hkept).1
    clear he hfit
    induction order with
    | nil => simp
    | cons e order ih =>
      have hi := ih fun x hx => hfd x (List.mem_cons_of_mem _ hx)
      cases hkept : keptBy r s.round e with
      | none =>
        rw [List.filterMap_cons_none hkept]
        exact hi.cons _
      | some e' =>
        rw [List.filterMap_cons_some hkept, List.map_cons, List.map_cons,
          hfd e List.mem_cons_self e' hkept]
        exact hi.cons_cons _

end Invariant

section Runs

/-- A condition on every entry that a round visits. -/
def EachEntry (C : Round → ℕ → Entry → Prop) (s : Server) : PollAnswer → Prop
  | .ready r => ∀ e ∈ (s.polled r).entries, C r s.round e
  | _ => True

def NewFdsFresh (s : Server) : PollAnswer → Prop
  | .ready r => FreshFds r s
  | _ => True

instance (C : Round → ℕ → Entry → Prop) [∀ r round e, Decidable (C r round e)] (s : Server) :
    (a : PollAnswer) → Decidable (EachEntry C s a)
  | .ready r => inferInstanceAs (Decidable (∀ e ∈ (s.polled r).entries, C r s.round e))
  | .eintr => .isTrue trivial
  | .fatal => .isTrue trivial

instance (s : Server) : (a : PollAnswer) → Decidable (NewFdsFresh s a)
  | .ready _ => inferInstanceAs (Decidable (List.Nodup _))
  | .eintr => .isTrue trivial
  | .fatal => .isTrue trivial

variable {s s' : Server} {a : PollAnswer} {answers : List PollAnswer}

theorem step_inv (hs : s.Inv) (hk : NewFdsFresh s a) (h : s.step a = .ok s') : s'.Inv := by
  cases a with
  | eintr =>
    cases h
    exact hs
  | fatal => cases h
  | ready r =>
    obtain ⟨s₁, new, order, rfl, he⟩ := pollRound_ok hs.pos hs.least h
    have hinv := he.inv hs hk
    exact hinv

theorem eventLoop_inv {pfds : ℕ → PollFd} {clients : ℕ → Client} {v4 v6 : Option ℕ} {s₀ : Server}
    (h0 : setup pfds clients v4 v6 = .ok s₀)
    (hf : Run.Along Server.step NewFdsFresh s₀ answers) (h : eventLoop s₀ answers = .ok s) :
    s.Inv :=
  Run.invariant (I := Server.Inv) (fun _ _ _ h1 h2 h3 => step_inv h1 h2 h3) (setup_inv h0) hf h

theorem polled_entry {r : Round} {e : Entry} (h : e ∈ (s.polled r).entries) :
    ∃ e₀ ∈ s.entries, ∃ m, e = ({ e₀.1 with revents := m }, e₀.2) := by
  obtain ⟨i, h1, h2, rfl⟩ := mem_live.mp h
  have hi : i < s.table.fdCount := h2
  refine ⟨s.table.slot i, mem_live.mpr ⟨i, h1, hi, rfl⟩, r.revents i, ?_⟩
  simp [Table.slot, Server.polled, hi]

theorem entry_polled (r : Round) {e : Entry} (h : e ∈ s.entries) :
    ∃ m, ({ e.1 with revents := m }, e.2) ∈ (s.polled r).entries := by
  obtain ⟨i, h1, h2, rfl⟩ := mem_live.mp h
  have hi : i < s.table.fdCount := h2
  refine ⟨r.revents i, mem_live.mpr ⟨i, h1, hi, ?_⟩⟩
  simp [Table.slot, Server.polled, hi]

variable {Q : Entry → Prop} {C : Round → ℕ → Entry → Prop}

/-- Listeners stand before clients, and every client has the property. -/
structure Entrywise (Q : Entry → Prop) (s : Server) : Prop where
  pos : 0 < s.numListeners
  least : s.numListeners ≤ s.table.fdCount
  all : ∀ e ∈ s.entries, Q e

theorem setup_entrywise {pfds : ℕ → PollFd} {clients : ℕ → Client} {v4 v6 : Option ℕ}
    (h : setup pfds clients v4 v6 = .ok s) : Entrywise Q s := by
  have hs := setup_inv h
  refine ⟨hs.pos, hs.least, ?_⟩
  simp only [setup] at h
  split_ifs at h
  cases h
  intro e he
  rw [Server.entries, live_of_le le_rfl] at he
  simp at he

theorem RoundEffect.forall_order {r : Round} {new order : List Entry}
    (he : RoundEffect r s new order s') (hs : ∀ e ∈ s.entries, Q e)
    (hfresh : ∀ a e, IsFresh a e → Q e)
    (hpoll : ∀ e m, Q e → Q ({ e.1 with revents := m }, e.2)) : ∀ e ∈ order, Q e := by
  intro e ho
  rcases (mem_order he).mp ho with hm | hm
  · obtain ⟨e₀, h0, m, rfl⟩ := polled_entry hm
    exact hpoll e₀ m (hs e₀ h0)
  · exact fresh_all (fun a _ => hfresh a) he.fresh e hm

theorem RoundEffect.entrywise {r : Round} {new order : List Entry}
    (he : RoundEffect r s new order s') (hs : Entrywise Q s)
    (hfresh : ∀ a ∈ registeredFrom r (s.polled r) 0, ∀ e, IsFresh a e → Q e)
    (hpoll : ∀ e m, Q e → Q ({ e.1 with revents := m }, e.2))
    (hvisit : ∀ e ∈ (s.polled r).entries, ∀ v e', Q e → visitEntry r s.round e = .ok v →
      v.kept = some e' → Q e') : Entrywise Q s' := by
  refine ⟨he.listeners ▸ hs.pos, he.listeners ▸ he.least, ?_⟩
  intro e' hm
  obtain ⟨e, ho, hkept⟩ := (mem_left he).mp hm
  rcases (mem_order he).mp ho with h1 | h1
  · obtain ⟨v, hv⟩ := he.visited e ho
    obtain ⟨e₀, h0, m, hem⟩ := polled_entry h1
    have hq : Q e := hem ▸ hpoll e₀ m (hs.all e₀ h0)
    exact hvisit e h1 v e' hq hv ((keptBy_ok hv).1.symm.trans hkept)
  · have hidle := (eventsOf_facts he ho).idle (fresh_revents he.fresh e h1)
    simp only [hkept, Option.some.injEq] at hidle
    exact hidle ▸ fresh_all hfresh he.fresh e h1

theorem eachEntry_of_forall (h : ∀ r round e, C r round e) (s : Server) (a : PollAnswer) :
    EachEntry C s a := by
  cases a with
  | ready r => exact fun e _ => h r s.round e
  | _ => exact trivial

theorem step_entrywise (hfresh : ∀ a e, IsFresh a e → Q e)
    (hpoll : ∀ e m, Q e → Q ({ e.1 with revents := m }, e.2))
    (hvisit : ∀ r round e v e', Q e → C r round e → visitEntry r round e = .ok v →
      v.kept = some e' → Q e')
    (hs : Entrywise Q s) (hc : EachEntry C s a) (h : s.step a = .ok s') : Entrywise Q s' := by
  cases a with
  | eintr =>
    cases h
    exact hs
  | fatal => cases h
  | ready r =>
    obtain ⟨s₁, new, order, rfl, he⟩ := pollRound_ok hs.pos hs.least h
    have hq := he.entrywise hs (fun a _ => hfresh a) hpoll
      fun e he v e' hq => hvisit r s.round e v e' hq (hc e he)
    exact ⟨hq.pos, hq.least, hq.all⟩

theorem eventLoop_entrywise (hfresh : ∀ a e, IsFresh a e → Q e)
    (hpoll : ∀ e m, Q e → Q ({ e.1 with revents := m }, e.2))
    (hvisit : ∀ r round e v e', Q e → C r round e → visitEntry r round e = .ok v →
      v.kept = some e' → Q e')
    (hs : Entrywise Q s) (hc : Run.Along Server.step (EachEntry C) s answers)
    (h : eventLoop s answers = .ok s') : Entrywise Q s' :=
  Run.invariant (fun _ _ _ h1 h2 h3 => step_entrywise hfresh hpoll hvisit h1 h2 h3) hs hc h

end Runs

/-- A server with one listener that has not accepted anything yet. -/
def startServer : Server :=
  match setup (fun _ => ⟨0, 0, 0⟩) (fun _ => blankClient) (some 3) none with
  | .ok s => s
  | .error _ => serverWith []

theorem setup_startServer :
    setup (fun _ => ⟨0, 0, 0⟩) (fun _ => blankClient) (some 3) none = .ok startServer := rfl

def acceptRound (fds : List ℕ) : Round :=
  { quietRound with
    revents := fun i => if i = 0 then pollIn else 0
    accepts := fun _ => fds.map fun fd => .conn ⟨fd, true, ⟨true, true⟩, none⟩ }

def readRound (env : Env) (rs : List RecvResult) : Round :=
  { quietRound with
    revents := fun i => if i = 0 then 0 else pollIn
    recvs := fun _ => rs
    env := fun _ => env }

def writeRound (rs : List SendResult) : Round :=
  { quietRound with
    revents := fun i => if i = 0 then 0 else pollOut
    sends := fun _ => rs }

/-- The target is a directory that has no index file. -/
def listingEnv : Env :=
  { emptyEnv with
    flags := ⟨true, false, false, false, false⟩
    fopen := fun site _ => match site with
      | .target => .ok []
      | _ => .error .ENOENT
    fstat := fun _ _ => some ⟨true, 0, 0⟩ }

/-- A request for the document root in one chunk. -/
def getRoot : List RecvResult :=
  [.data ⟨ascii "GET / HTTP/1.0" ++ headerEnd, by decide, by decide⟩ true]

end SimpleServer
