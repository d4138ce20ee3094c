import SimpleServer.ClientConn.DoRead

/-!
# `do_write`

A `send` answers with the number of bytes it took, which is at most what it
was offered, or fails; a list of answers that runs out is a full socket, which
answers `EAGAIN`. Every answer that is not positive ends the process: the
branches of the source for `EAGAIN`, `EWOULDBLOCK` and `EINTR` stand behind
that `exit` and are never reached.
-/

namespace SimpleServer

open CString FileTree

inductive ExitStatus where
  | success
  | failure
  deriving DecidableEq, Repr

inductive SendResult where
  | ret (n : ℕ)
  | fail (e : Errno)
  deriving DecidableEq, Repr

def SendResult.count (offered : ℕ) : SendResult → ℕ
  | .ret n => min n offered
  | .fail _ => 0

def unsent (c : Client) : Bytes := ((c.outBuf.getD []).take c.outputLength).drop c.outputSent

structure WriteOutcome where
  client : Client
  events : List Event

def finishWrite (c : Client) : WriteOutcome := ⟨{ c with state := .closing }, [.shutdown c.fd]⟩

def sendLoop (c : Client) : List SendResult → Except ExitStatus WriteOutcome
  | [] => if c.outputSent < c.outputLength then .error .failure else .ok (finishWrite c)
  | r :: rest =>
    if c.outputSent < c.outputLength then
      let n := r.count (c.outputLength - c.outputSent)
      if n = 0 then .error .failure
      else
        match sendLoop { c with outputSent := c.outputSent + n } rest with
        | .error e => .error e
        | .ok o => .ok ⟨o.client, .sent c.fd ((unsent c).take n) :: o.events⟩
    else .ok (finishWrite c)

def doWrite (rs : List SendResult) (c : Client) : Except ExitStatus WriteOutcome :=
  if c.outBuf = none ∨ c.outputLength = 0 then .ok ⟨{ c with state := .closing }, []⟩
  else sendLoop c rs

section SendLoop

variable {c : Client} {a : SendResult} {rs : List SendResult}

/-- The client behind a `send` that took `n` bytes. -/
def Client.advance (c : Client) (n : ℕ) : Client := { c with outputSent := c.outputSent + n }

theorem sendLoop_done (h : c.outputLength ≤ c.outputSent) :
    sendLoop c rs = .ok (finishWrite c) := by
  cases rs with
  | nil => exact if_neg (by omega)
  | cons a rs => exact if_neg (by omega)

theorem sendLoop_blocked (h : c.outputSent < c.outputLength) : sendLoop c [] = .error .failure :=
  if_pos h

theorem sendLoop_refused (h : c.outputSent < c.outputLength)
    (hn : a.count (c.outputLength - c.outputSent) = 0) : sendLoop c (a :: rs) = .error .failure :=
  (if_pos h).trans (if_pos hn)

theorem sendLoop_sent (h : c.outputSent < c.outputLength)
    (hn : a.count (c.outputLength - c.outputSent) ≠ 0) :
    sendLoop c (a :: rs) =
      (sendLoop (c.advance (a.count (c.outputLength - c.outputSent))) rs).map fun o =>
        ⟨o.client, .sent c.fd ((unsent c).take (a.count (c.outputLength - c.outputSent))) ::
          o.events⟩ := by
  refine ((if_pos h).trans (if_neg hn)).trans ?_
  rw [Client.advance]
  cases sendLoop { c with
    outputSent := c.outputSent + a.count (c.outputLength - c.outputSent) } rs <;> rfl

/-- Everything has been sent and the client is `CLOSING`. -/
structure Delivered (c : Client) (o : WriteOutcome) : Prop where
  client : o.client =
    { c with outputSent := max c.outputSent c.outputLength, state := .closing }
  events : ∃ pieces : List Bytes, pieces.flatten = unsent c ∧
    o.events = pieces.map (Event.sent c.fd) ++ [.shutdown c.fd]

theorem finishWrite_delivered (h : c.outputLength ≤ c.outputSent) :
    Delivered c (finishWrite c) := by
  refine ⟨?_, [], ?_, rfl⟩
  · rw [Nat.max_eq_left h]
    rfl
  · symm
    apply List.drop_eq_nil_of_le
    exact (List.length_take_le _ _).trans h

theorem SendResult.count_le (a : SendResult) (offered : ℕ) : a.count offered ≤ offered := by
  cases a with
  | ret n => exact min_le_right _ _
  | fail e => exact Nat.zero_le _

/-- A rule for loops that come to their end: what the last iteration
establishes and a `send` that took something carries back. -/
theorem sendLoop_induct {P : Client → List SendResult → WriteOutcome → Prop}
    (hdone : ∀ c rs, c.outputLength ≤ c.outputSent → P c rs (finishWrite c))
    (hsent : ∀ c a rs o, c.outputSent < c.outputLength →
      a.count (c.outputLength - c.outputSent) ≠ 0 →
      P (c.advance (a.count (c.outputLength - c.outputSent))) rs o →
      P c (a :: rs) ⟨o.client,
        .sent c.fd ((unsent c).take (a.count (c.outputLength - c.outputSent))) :: o.events⟩)
    {o : WriteOutcome} (h : sendLoop c rs = .ok o) : P c rs o := by
  induction rs generalizing c o with
  | nil =>
    rcases Nat.lt_or_ge c.outputSent c.outputLength with hlt | hge
    · rw [sendLoop_blocked hlt] at h
      cases h
    · rw [sendLoop_done hge] at h
      cases h
      exact hdone c [] hge
  | cons a rs ih =>
    rcases Nat.lt_or_ge c.outputSent c.outputLength with hlt | hge
    · by_cases hn : a.count (c.outputLength - c.outputSent) = 0
      · rw [sendLoop_refused hlt hn] at h
        cases h
      · rw [sendLoop_sent hlt hn] at h
        cases ho : sendLoop (c.advance (a.count (c.outputLength - c.outputSent))) rs with
        | error x =>
          rw [ho] at h
          cases h
        | ok o' =>
          rw [ho] at h
          cases h
          exact hsent c a rs o' hlt hn (ih ho)
    · rw [sendLoop_done hge] at h
      cases h
      exact hdone c _ hge

theorem Delivered.sent {n : ℕ} {o : WriteOutcome} (hn : n ≤ c.outputLength - c.outputSent)
    (hlt : c.outputSent < c.outputLength) (h : Delivered (c.advance n) o) :
    Delivered c ⟨o.client, .sent c.fd ((unsent c).take n) :: o.events⟩ := by
  obtain ⟨hcl, pieces, hfl, hev⟩ := h
  refine ⟨?_, (unsent c).take n :: pieces, ?_, congrArg (_ :: ·) hev⟩
  · simp only [hcl, Client.advance, Client.mk.injEq, true_and, and_true]
    omega
  · rw [List.flatten_cons, hfl]
    simp only [unsent, Client.advance, ← List.drop_drop]
    exact List.take_append_drop _ _

theorem sendLoop_ok {o : WriteOutcome} (h : sendLoop c rs = .ok o) : Delivered c o :=
  sendLoop_induct (P := fun c _ o => Delivered c o) (fun _ _ hge => finishWrite_delivered hge)
    (fun _ a _ _ hlt _ hd => hd.sent (a.count_le _) hlt) h

end SendLoop

theorem doWrite_ok {c : Client} {rs : List SendResult} {o : WriteOutcome}
    (h : doWrite rs c = .ok o) :
    o.client.state = .closing ∧ o.client.fd = c.fd ∧ o.client.filePtr = c.filePtr ∧
      ∀ ev ∈ o.events, (∃ bytes, ev = .sent c.fd bytes) ∨ ev = .shutdown c.fd := by
  by_cases hb : c.outBuf = none ∨ c.outputLength = 0
  · rw [doWrite, if_pos hb] at h
    cases h
    exact ⟨rfl, rfl, rfl, by simp⟩
  · rw [doWrite, if_neg hb] at h
    obtain ⟨hc, pieces, -, hev⟩ := sendLoop_ok h
    rw [hc, hev]
    refine ⟨rfl, rfl, rfl, ?_⟩
    intro ev hm
    rcases List.mem_append.mp hm with hm | hm
    · obtain ⟨bytes, -, rfl⟩ := List.mem_map.mp hm
      exact Or.inl ⟨bytes, rfl⟩
    · exact Or.inr (List.mem_singleton.mp hm)

end SimpleServer
