import SimpleServer.FaultIsolation

/-!
# How large the table becomes

`add_to_lists` doubles both arrays when they are full, and nothing ever makes
them smaller. Over a whole run their size is the least of the sizes 32, 64, 128
and so on that was enough for the busiest moment, which is behind the accepts
of some round and before its closes: connections that come and go do not make
the table grow.
-/

namespace SimpleServer

open CString FileTree SlotArray

/-- The slots in use once a round has accepted what it accepts. -/
def busiest (s : Server) : PollAnswer → ℕ
  | .ready r => s.table.fdCount + (registeredFrom r (s.polled r) 0).length
  | _ => s.table.fdCount

/-- The most slots that were in use at once. -/
def peak (s : Server) (answers : List PollAnswer) : ℕ :=
  Run.tally Server.step (fun s a most => max most (busiest s a)) s.table.fdCount s answers

structure Sized (t : Table) (most : ℕ) : Prop where
  grown : Grown initialSize t.fdSize most
  used : t.fdCount ≤ most

section Accepting

variable {r : Round} {t t' : Table} {s s' : Server} {i most : ℕ}

theorem Sized.most_eq (h : Sized t most) : max most t.fdCount = most := Nat.max_eq_left h.used

theorem acceptNewConn_sized {rs : List AcceptResult} (h : Sized t most)
    (ha : acceptNewConn t rs = .ok t') :
    Sized t' (max most (t.fdCount + (registered rs).length)) := by
  induction rs generalizing t most with
  | nil =>
    cases ha
    rw [registered, List.length_nil, Nat.add_zero, h.most_eq]
    exact h
  | cons a rs ih =>
    cases a with
    | fail e =>
      by_cases he : e = .EINTR
      · rw [acceptNewConn, if_pos he] at ha
        rw [registered, if_pos he]
        exact ih h ha
      · rw [acceptNewConn, if_neg he] at ha
        cases ha
        rw [registered, if_neg he, List.length_nil, Nat.add_zero, h.most_eq]
        exact h
    | conn a =>
      by_cases hn : a.nonblock = false
      · rw [acceptNewConn, if_pos hn] at ha
        rw [registered, if_pos hn]
        exact ih h ha
      · rw [acceptNewConn, if_neg hn] at ha
        cases hadd : addToLists a.fd a.growth t with
        | error x => simp [hadd] at ha
        | ok q =>
          obtain ⟨idx, t₁⟩ := q
          obtain ⟨-, hcount, -, hsize⟩ := addToLists_ok hadd
          simp only [hadd] at ha
          have hnext : Sized (setAddr idx a.addr t₁) (max most (t.fdCount + 1)) := by
            constructor
            · change Grown initialSize t₁.fdSize _
              rw [hsize]
              exact h.grown.push (by decide) h.used
            · change t₁.fdCount ≤ _
              rw [hcount]
              exact Nat.le_max_right _ _
          have hrest := ih hnext ha
          have hmost : max (max most (t.fdCount + 1))
              ((setAddr idx a.addr t₁).fdCount + (registered rs).length) =
              max most (t.fdCount + (registered (.conn a :: rs)).length) := by
            rw [registered, if_neg hn, List.length_cons]
            change max (max most (t.fdCount + 1)) (t₁.fdCount + _) = _
            omega
          rwa [hmost] at hrest

theorem visitListener_sized (h : Sized s.table most) (hv : visitListener r s i = .ok s') :
    Sized s'.table (max most (s.table.fdCount +
      (if (s.table.pfds i).revents &&& pollIn ≠ 0 then registered (r.accepts i) else []).length)) := by
  by_cases hp : (s.table.pfds i).revents &&& pollIn ≠ 0
  · rw [visitListener, if_pos hp] at hv
    rw [if_pos hp]
    cases ha : acceptNewConn s.table (r.accepts i) with
    | error x => simp [ha] at hv
    | ok t =>
      simp only [ha, Except.ok.injEq] at hv
      rw [← hv]
      exact acceptNewConn_sized h ha
  · rw [visitListener, if_neg hp] at hv
    cases hv
    rw [if_neg hp, List.length_nil, Nat.add_zero, h.most_eq]
    exact h

end Accepting

section Rounds

variable {r : Round} {s s' : Server} {i j fuel top most : ℕ} {a : PollAnswer}

theorem forLoop_rule {P : Server → ℕ → Prop}
    (hstep : ∀ s i s' j, P s i → i < s.table.fdCount → visitSlot r s i = .ok (s', j) → P s' j)
    (h0 : P s i) (h : forLoop r fuel s i = .ok s') : ∃ j, P s' j ∧ s'.table.fdCount ≤ j := by
  induction fuel generalizing s i with
  | zero =>
    rw [forLoop] at h
    split_ifs at h with hlt
    cases h
    exact ⟨i, h0, Nat.not_lt.mp hlt⟩
  | succ fuel ih =>
    rw [forLoop] at h
    split_ifs at h with hlt
    · cases hv : visitSlot r s i with
      | error x =>
        rw [hv] at h
        cases h
      | ok q =>
        rw [hv] at h
        exact ih (hstep s i q.1 q.2 h0 hlt hv) h
    · cases h
      exact ⟨i, h0, Nat.not_lt.mp hlt⟩

structure Climbs (r : Round) (top : ℕ) (s : Server) (i : ℕ) : Prop where
  pos : 0 < s.numListeners
  least : s.numListeners ≤ s.table.fdCount
  sized : ∃ most, Sized s.table most ∧
    max most (s.table.fdCount + (registeredFrom r s i).length) = top

theorem climbs_listener (h : Climbs r top s i) (hi : i < s.numListeners)
    (hv : visitListener r s i = .ok s') : Climbs r top s' (i + 1) := by
  obtain ⟨most, hsized, htop⟩ := h.sized
  obtain ⟨new, hl, -, -, hnew, heff⟩ := visitListener_ok hv
  have hleast := h.least
  have hcount := heff.count
  have hcongr : registeredFrom r s' (i + 1) = registeredFrom r s (i + 1) :=
    registeredFrom_congr hl fun l hlt => heff.below l (by omega)
  refine ⟨hl ▸ h.pos, by omega, _, visitListener_sized hsized hv, ?_⟩
  rw [registeredFrom_succ hi, List.length_append] at htop
  rw [hcongr, hcount, ← hnew.length_eq]
  omega

theorem climbs_client (h : Climbs r top s i) (h1 : s.numListeners ≤ i)
    (h2 : i < s.table.fdCount) (hv : visitClient r s i = .ok (s', j)) : Climbs r top s' j := by
  obtain ⟨most, hsized, htop⟩ := h.sized
  have hpos := h.pos
  have hleast := h.least
  obtain ⟨v, -, heff⟩ := visitClient_inv (by omega) h2 hv
  have hl := heff.listeners
  obtain ⟨hj, hcount, hroom⟩ : s'.numListeners ≤ j ∧ s'.table.fdCount ≤ s.table.fdCount ∧
      s'.numListeners ≤ s'.table.fdCount := by
    cases hk : v.kept with
    | none =>
      obtain ⟨hj, hc, -⟩ := heff.gone hk
      omega
    | some x =>
      obtain ⟨hj, hc, -⟩ := heff.kept x hk
      omega
  have hused := hsized.used
  refine ⟨hl ▸ hpos, hroom, most, ⟨?_, hcount.trans hused⟩, ?_⟩
  · rw [heff.size]
    exact hsized.grown
  · rw [registeredFrom_clients h1, List.length_nil] at htop
    rw [registeredFrom_clients hj, List.length_nil]
    omega

theorem climbs_slot (h : Climbs r top s i) (hlt : i < s.table.fdCount)
    (hv : visitSlot r s i = .ok (s', j)) : Climbs r top s' j := by
  rw [visitSlot] at hv
  split_ifs at hv with hi
  · cases hl : visitListener r s i with
    | error x =>
      rw [hl] at hv
      cases hv
    | ok s₁ =>
      rw [hl] at hv
      cases hv
      exact climbs_listener h hi hl
  · exact climbs_client h (Nat.not_lt.mp hi) hlt hv

structure AtRest (s : Server) (most : ℕ) : Prop where
  pos : 0 < s.numListeners
  least : s.numListeners ≤ s.table.fdCount
  sized : Sized s.table most

theorem step_atRest (h : AtRest s most) (hs : s.step a = .ok s') :
    AtRest s' (max most (busiest s a)) := by
  cases a with
  | eintr =>
    cases hs
    change AtRest s (max most s.table.fdCount)
    rw [h.sized.most_eq]
    exact h
  | fatal => cases hs
  | ready r =>
    rw [Server.step, pollRound] at hs
    cases hloop : forLoop r (loopFuel s r) (s.polled r) 0 with
    | error x =>
      rw [hloop] at hs
      cases hs
    | ok t =>
      rw [hloop] at hs
      cases hs
      have hstart : Climbs r (max most (busiest s (.ready r))) (s.polled r) 0 :=
        ⟨h.pos, h.least, most, ⟨h.sized.grown, h.sized.used⟩, rfl⟩
      obtain ⟨j, hend, hj⟩ :=
        forLoop_rule (fun _ _ _ _ hc hlt hv => climbs_slot hc hlt hv) hstart hloop
      obtain ⟨m, hsized, htop⟩ := hend.sized
      -- all listeners have been passed, so nothing is left to be accepted
      have hmost : m = max most (busiest s (.ready r)) := by
        rw [registeredFrom_clients (hend.least.trans hj), List.length_nil, Nat.add_zero,
          hsized.most_eq] at htop
        exact htop
      exact ⟨hend.pos, hend.least, hmost ▸ hsized⟩

end Rounds

/-- The table has the least size among 32 and its doublings that was enough for
the most slots that were in use at once. -/
theorem table_size_least {pfds : ℕ → PollFd} {clients : ℕ → Client} {v4 v6 : Option ℕ}
    {s₀ s : Server} {answers : List PollAnswer} (h0 : setup pfds clients v4 v6 = .ok s₀)
    (h : eventLoop s₀ answers = .ok s) :
    IsLeast {n | ∃ k, n = initialSize * 2 ^ k ∧ peak s₀ answers ≤ n} s.table.fdSize ∧
      s.table.fdCount ≤ peak s₀ answers := by
  have hs := setup_inv h0
  have hsize : s₀.table.fdSize = initialSize := by
    simp only [setup] at h0
    split_ifs at h0
    cases h0
    rfl
  have hstart : AtRest s₀ s₀.table.fdCount :=
    ⟨hs.pos, hs.least, ⟨⟨0, hsize⟩, hs.fits, Or.inl hsize⟩, le_rfl⟩
  have hall : Run.Along Server.step (fun _ _ => True) s₀ answers :=
    Run.along_of_forall (fun _ _ => trivial) _ _
  have hend : AtRest s (peak s₀ answers) :=
    Run.invariant_tally (fun _ a _ _ hi _ hst => step_atRest (a := a) hi hst) hstart hall h
  exact ⟨hend.sized.grown.least, hend.sized.used⟩

def crowd : List PollAnswer :=
  [.ready (acceptRound (List.range' 7 33)), .ready { quietRound with revents := fun _ => pollHup },
    .ready (acceptRound (List.range' 7 33))]

theorem table_size_least_crowd :
    ∃ s, eventLoop startServer crowd = .ok s ∧
      IsLeast {n | ∃ k, n = initialSize * 2 ^ k ∧ 34 ≤ n} s.table.fdSize := by
  have hpeak : peak startServer crowd = 34 := by decide +kernel
  obtain ⟨s, hs, -⟩ := Run.arrives_iff.mp (show Run.arrives (fun _ => true)
    (eventLoop startServer crowd) = true by decide +kernel)
  exact ⟨s, hs, hpeak ▸ (table_size_least setup_startServer hs).1⟩

end SimpleServer
