import SimpleServer.Reachable

/-!
# What the clients of the table hold, over a round and a shutdown

A quantity that every entry of the table holds some of is a function from
entries to lists. Where each visit balances, what the entry held and the visit
brought in being what the visit put out and the entry is left with, the round
balances, in whatever order the table was swept. The loop behind the event
loop closes the entries, each of them once, and nothing else.
-/

namespace SimpleServer

open SlotArray

section Rounds

variable {r : Round} {s s' : Server} {new order : List Entry} {α : Type}

theorem polled_flatMap {f : Entry → List α} (hf : ∀ e m, f ({ e.1 with revents := m }, e.2) = f e)
    (r : Round) (s : Server) : (s.polled r).entries.flatMap f = s.entries.flatMap f := by
  simp only [Server.entries, live, List.flatMap_map]
  apply List.flatMap_congr
  intro i hi
  rw [List.mem_range'_1] at hi
  have hlt : i < s.table.fdCount := by
    have hn : (s.polled r).numListeners = s.numListeners := rfl
    have hc : (s.polled r).table.fdCount = s.table.fdCount := rfl
    omega
  have hslot : (s.polled r).table.slot i =
      ({ (s.table.slot i).1 with revents := r.revents i }, (s.table.slot i).2) := by
    simp [Table.slot, Server.polled, hlt]
  rw [hslot, hf]

/-- What the entries held, new ones included, and the visits brought in is what
the visits put out and the entries that are left hold. -/
theorem RoundEffect.balance (he : RoundEffect r s new order s') (held gain out : Entry → List α)
    (hpoll : ∀ e m, held ({ e.1 with revents := m }, e.2) = held e)
    (hvisit : ∀ e ∈ order,
      (held e ++ gain e).Perm (out e ++ (keptBy r s.round e).toList.flatMap held)) :
    (s.entries.flatMap held ++ new.flatMap held ++ order.flatMap gain).Perm
      (order.flatMap out ++ s'.entries.flatMap held) := by
  have hbefore : (order.flatMap held).Perm (s.entries.flatMap held ++ new.flatMap held) := by
    have hperm := he.sweep.perm.flatMap_right held
    rwa [List.flatMap_append, polled_flatMap hpoll] at hperm
  have hafter : s'.entries.flatMap held =
      order.flatMap fun e => (keptBy r s.round e).toList.flatMap held := by
    rw [he.left, List.filterMap_eq_flatMap_toList, List.flatMap_assoc]
  have hsum : (order.flatMap held ++ order.flatMap gain).Perm
      (order.flatMap fun e => out e ++ (keptBy r s.round e).toList.flatMap held) :=
    (List.flatMap_append_perm _ _ _).trans (List.Perm.flatMap_left _ hvisit)
  rw [hafter]
  refine (hbefore.symm.append_right _).trans (hsum.trans ?_)
  exact (List.flatMap_append_perm _ _ _).symm

end Rounds

/-- What the shutdown loop does from slot `i` on: it closes the entries there,
in an order of its own, and leaves those below. -/
structure DrainEffect (s : Server) (i : ℕ) (order : List Entry) (s' : Server) : Prop where
  listeners : s'.numListeners = s.numListeners
  perm : order.Perm (live s.table.slot i s.table.fdCount)
  trace : s'.trace = s.trace ++ order.flatMap fun e => closeEvents e.2
  below : ∀ l < i, s'.table.slot l = s.table.slot l
  done : s'.table.fdCount ≤ i

theorem setup_empty {pfds : ℕ → PollFd} {clients : ℕ → Client} {v4 v6 : Option ℕ} {s : Server}
    (h : setup pfds clients v4 v6 = .ok s) : s.entries = [] := by
  simp only [setup] at h
  split_ifs at h
  cases h
  exact live_of_le le_rfl

section Shutdown

variable {s s' : Server} {i fuel : ℕ}

theorem DrainEffect.refl (h : s.table.fdCount ≤ i) : DrainEffect s i [] s := by
  refine ⟨rfl, ?_, (List.append_nil _).symm, fun _ _ => rfl, h⟩
  rw [live_of_le h]

theorem DrainEffect.step {order : List Entry} (hi : 0 < i) (hlt : i < s.table.fdCount)
    (h : DrainEffect (s.close i) i order s') :
    DrainEffect s i (s.table.slot i :: order) s' := by
  obtain ⟨hc, -, hbelow, hl⟩ := closeConn_slot hi hlt s.table
    (Function.update_eq_self i s.table.slot).symm rfl
  refine ⟨h.listeners, ?_, ?_, fun l hl => (h.below l hl).trans (hbelow l hl), h.done⟩
  · have hrest := h.perm
    change order.Perm (live (closeConn i s.table).1.slot i (closeConn i s.table).1.fdCount) at hrest
    rw [hc, hl] at hrest
    rw [live_cons hlt]
    exact (hrest.trans (backToFront_perm _)).cons _
  · have hev : (s.close i).trace = s.trace ++ closeEvents (s.table.clients i) := by
      rw [← closeConn_events hi]
      rfl
    rw [h.trace, hev, List.flatMap_cons, List.append_assoc]
    rfl

theorem shutdownLoop_drain (hi : 0 < i) (h : shutdownLoop fuel s i = .ok s') :
    ∃ order, DrainEffect s i order s' := by
  induction fuel generalizing s with
  | zero =>
    simp only [shutdownLoop] at h
    split at h
    · cases h
    · cases h
      exact ⟨[], .refl (by omega)⟩
  | succ fuel ih =>
    simp only [shutdownLoop] at h
    split at h
    · rename_i hlt
      obtain ⟨order, ho⟩ := ih h
      exact ⟨_, ho.step hi hlt⟩
    · cases h
      exact ⟨[], .refl (by omega)⟩

theorem shutdownLoop_ok (hi : 0 < i) (hf : s.table.fdCount - i ≤ fuel) :
    ∃ s', shutdownLoop fuel s i = .ok s' := by
  induction fuel generalizing s with
  | zero => exact ⟨s, if_neg (by omega)⟩
  | succ fuel ih =>
    rcases Nat.lt_or_ge i s.table.fdCount with hlt | hge
    · obtain ⟨hc, -⟩ := closeConn_slot hi hlt s.table
        (Function.update_eq_self i s.table.slot).symm rfl
      have hcount : (s.close i).table.fdCount = s.table.fdCount - 1 := hc
      obtain ⟨s', hs⟩ := ih (s := s.close i) (by omega)
      exact ⟨s', (if_pos hlt).trans hs⟩
    · exact ⟨s, if_neg (by omega)⟩

end Shutdown

end SimpleServer
