import SimpleServer.BuildLedger
import SimpleServer.Chunking

/-!
# Receive errors that cannot be recovered from

`append` leaves `do_read` when there is no memory, but a fatal error of `recv`
only leaves the loop: with a complete header in the buffer the request is then
served, and `SENDING_HEADER` takes the place of `CLOSING`. `drainStep` is one
turn of the loop, and `Unrecoverable` is what a turn can meet.
-/

namespace SimpleServer

open CString FileTree SlotArray

def Fatal (e : Errno) : Prop := e ≠ .EAGAIN ∧ e ≠ .EWOULDBLOCK ∧ e ≠ .EINTR

/-- The client behind one `recv`; `none` where the loop is left. -/
def drainStep (c : Client) : RecvResult → Option Client
  | .data chunk realloc =>
    if (append c chunk.bytes realloc).state = .reading then some (append c chunk.bytes realloc)
    else none
  | .eof => none
  | .fail e => if e = .EINTR then some c else none

/-- The loop is still running behind these answers. -/
def Draining (c : Client) (before : List RecvResult) (c' : Client) : Prop :=
  before.foldlM drainStep c = some c'

inductive Unrecoverable (c : Client) : RecvResult → Prop
  | error (e : Errno) : Fatal e → Unrecoverable c (.fail e)
  | memory (chunk : Chunk) : c.inputLength + chunk.bytes.length ≤ maxRequestSize →
      c.inputCapacity < c.inputLength + chunk.bytes.length → Unrecoverable c (.data chunk false)

/-- The client is given up: nothing is staged for it, and `main` removes it in
the same round without a call of `send`. -/
structure GivenUp (r : Round) (round : ℕ) (e : Entry) : Prop where
  closing : (readEntry r round e).client.state = .closing
  unstaged : SameResponse (readEntry r round e).client e.2
  silent : (readEntry r round e).events = []
  removed : visitEntry r round e =
    .ok ⟨none, .visit e.1 e.2 :: closeEvents (readEntry r round e).client⟩
  unsent : ∀ sends, visitEntry { r with sends := sends } round e = visitEntry r round e
  gone : ∀ s s', s.Inv → FreshFds r s → s.round = round → e ∈ (s.polled r).entries →
    pollRound s r = .ok s' → e.fd ∉ s'.entries.map Entry.fd
  final : ∀ r' round' p v, visitEntry r' round' (p, (readEntry r round e).client) = .ok v →
    ∀ e', v.kept = some e' → e'.2.state = .closing

section Drain

variable {base c c' : Client} {b : Bytes} {a : RecvResult} {before rest : List RecvResult}

theorem recvLoop_step (h : drainStep c a = some c') :
    recvLoop c (a :: rest) = recvLoop c' rest := by
  cases a with
  | data chunk realloc =>
    simp only [drainStep] at h
    split_ifs at h with hr
    cases h
    simp only [recvLoop, hr, ne_eq, not_true, if_false]
  | eof => cases h
  | fail e =>
    simp only [drainStep] at h
    split_ifs at h with he
    cases h
    rw [he]
    rfl

theorem recvLoop_draining (h : Draining c before c') :
    recvLoop c (before ++ rest) = recvLoop c' rest := by
  induction before generalizing c with
  | nil =>
    cases h
    rfl
  | cons a before ih =>
    rw [Draining, List.foldlM_cons] at h
    obtain ⟨c₁, h1, h2⟩ := Option.bind_eq_some_iff.mp h
    rw [List.cons_append, recvLoop_step h1]
    exact ih h2

theorem append_reading (h : HoldsInput base b c) {data : Bytes} {realloc : Bool}
    (hr : (append c data realloc).state = .reading) :
    HoldsInput base (b ++ data) (append c data realloc) := by
  have hover : ¬ maxRequestSize < c.inputLength + data.length := by
    intro ho
    rw [append_over ho] at hr
    cases hr
  have hmem : ¬ (c.inputCapacity < c.inputLength + data.length ∧ realloc = false) := by
    intro hm
    rw [append_failed hover hm] at hr
    cases hr
  obtain ⟨cap, hs⟩ := append_stored hover hmem
  rw [hs]
  exact h.stored cap data

theorem drainStep_holds (h : HoldsInput base b c) (hs : drainStep c a = some c') :
    HoldsInput base (b ++ received [a]) c' := by
  cases a with
  | data chunk realloc =>
    simp only [drainStep] at hs
    split_ifs at hs with hr
    cases hs
    rw [received, received, List.append_nil]
    exact append_reading h hr
  | eof => cases hs
  | fail e =>
    simp only [drainStep] at hs
    split_ifs at hs
    cases hs
    rw [received, received, List.append_nil]
    exact h

theorem received_step (hs : drainStep c a = some c') :
    received (a :: rest) = received [a] ++ received rest := by
  cases a with
  | data chunk realloc => simp [received]
  | eof => cases hs
  | fail e => rfl

theorem draining_holds (h : HoldsInput base b c) (hd : Draining c before c') :
    HoldsInput base (b ++ received before) c' := by
  induction before generalizing b c with
  | nil =>
    cases hd
    rwa [received, List.append_nil]
  | cons a before ih =>
    rw [Draining, List.foldlM_cons] at hd
    obtain ⟨c₁, h1, h2⟩ := Option.bind_eq_some_iff.mp hd
    rw [received_step h1, ← List.append_assoc]
    exact ih (drainStep_holds h h1) h2

theorem recvLoop_unrecoverable (h : Unrecoverable c a) :
    (recvLoop c (a :: rest)).1 = { c with state := .closing } ∧
      ((recvLoop c (a :: rest)).2 = false ↔ ∃ chunk, a = .data chunk false) := by
  cases h with
  | error e he =>
    obtain ⟨h1, h2, h3⟩ := he
    simp [recvLoop, h1, h2, h3]
  | memory chunk hl hcap =>
    have hover : ¬ maxRequestSize < c.inputLength + chunk.bytes.length := by omega
    simp [recvLoop, append_failed hover ⟨hcap, rfl⟩]

/-- What `do_read` makes of an error: a request that is complete in the buffer
is served all the same. -/
theorem doRead_unrecoverable (env : Env) (round : ℕ) (p : PollFd) (h : HoldsInput base b c)
    (hd : Draining c before c') (ha : Unrecoverable c' a) :
    ((∃ chunk, a = .data chunk false) ∨ ¬ headerEnd <:+: cstr (b ++ received before) →
      doRead env round (before ++ a :: rest) c p = ⟨{ c' with state := .closing }, p, []⟩) ∧
    (¬ ((∃ chunk, a = .data chunk false) ∨ ¬ headerEnd <:+: cstr (b ++ received before)) →
      (doRead env round (before ++ a :: rest) c p).client.state = .sendingHeader) := by
  have hin := draining_holds h hd
  obtain ⟨hclosing, hleft⟩ : (recvLoop c' (a :: rest)).1 = _ ∧ _ := recvLoop_unrecoverable ha
  rw [← recvLoop_draining hd] at hclosing hleft
  have hnone : findSub headerEnd (cstr (b ++ received before)) = none ↔ _ :=
    findSub_eq_none (by decide)
  generalize b ++ received before = b' at hin hnone
  rcases doRead_cases env round (before ++ a :: rest) c p with
    ⟨hr, hwhy⟩ | ⟨buf, k, hbreak, hbuf, -, hk, hr⟩
  · refine ⟨fun _ => by rw [hr, hclosing], fun hno => ?_⟩
    rw [not_or, not_not] at hno
    have hne : b' ≠ [] := by
      rintro rfl
      exact absurd hno.2 (by decide)
    rw [hclosing] at hwhy
    rcases hwhy with hw | hw | hw | ⟨buf, hbuf, hw⟩
    · exact absurd (hleft.mp hw) hno.1
    · exact absurd (hin.inBuf hne) (by rw [hw]; exact (Option.some_ne_none _).symm)
    · exact absurd (List.length_eq_zero_iff.mp (hin.length.symm.trans hw)) hne
    · rw [(hin.search hbuf).2, hnone] at hw
      exact absurd hno.2 hw
  · rw [hclosing] at hbuf hk
    rw [(hin.search hbuf).2] at hk
    refine ⟨fun hyes => ?_, fun _ => by rw [hr]; rfl⟩
    rcases hyes with hmem | hno
    · rw [hleft.mpr hmem] at hbreak
      cases hbreak
    · rw [hnone.mpr hno] at hk
      cases hk

end Drain

section Visit

variable {r : Round} {round : ℕ} {e : Entry}

theorem closing_kept {v : Visit} {e' : Entry} (hc : e.2.state = .closing)
    (h : visitEntry r round e = .ok v) (hk : v.kept = some e') : e'.2.state = .closing := by
  rcases visitEntry_kept h hk with ⟨rfl, -⟩ | ⟨-, hne, -⟩
  · exact hc
  · have hread : readEntry r round e = ⟨e.2, e.1, []⟩ := by
      refine if_neg fun hr => ?_
      rw [hc] at hr
      cases hr.2
    rw [hread] at hne
    exact absurd hc hne

theorem visitEntry_closing (h0 : e.1.revents ≠ 0) (hz : e.1.revents &&& pollFailed = 0)
    (hc : (readEntry r round e).client.state = .closing) :
    visitEntry r round e = .ok ⟨none, .visit e.1 e.2 :: (readEntry r round e).events ++
      closeEvents (readEntry r round e).client⟩ := by
  have hw : writeEntry r e.1.revents (readEntry r round e).client =
      .ok ⟨(readEntry r round e).client, []⟩ := by
    refine if_neg fun hs => ?_
    rw [hc] at hs
    rcases hs.2 with h | h <;> cases h
  rw [visitEntry_dispatch h0 (by simp [hz]), dispatch_closing hw hc, List.append_nil]

theorem visit_gone {s s' : Server} (hs : s.Inv) (hk : FreshFds r s) (he : e ∈ (s.polled r).entries)
    (hp : pollRound s r = .ok s') {v : Visit} (hv : visitEntry r s.round e = .ok v)
    (hnone : v.kept = none) : e.fd ∉ s'.entries.map Entry.fd := by
  obtain ⟨s₁, new, order, rfl, heff⟩ := pollRound_ok hs.pos hs.least hp
  have hgone : goneBy r s.round e = true := (visitEntry_facts hv).gone.mp hnone
  have hleft := fd_mem_left hk heff ((mem_order heff).mpr (Or.inl he))
  intro hm
  have hf := hleft.mp hm
  rw [hgone] at hf
  cases hf

end Visit

/-- An error in a drain is final if and only if it is a lack of memory or there
is no complete header in the buffer. -/
theorem receive_error_final_iff (r : Round) (round : ℕ) (e : Entry) (b : Bytes)
    (before rest : List RecvResult) (a : RecvResult) (c' : Client)
    (hz : e.1.revents &&& pollFailed = 0) (hp : e.1.revents &&& pollIn ≠ 0)
    (hin : HoldsInput e.2 b e.2) (hrs : r.recvs e.2.fd = before ++ a :: rest)
    (hd : Draining e.2 before c') (ha : Unrecoverable c' a) :
    GivenUp r round e ↔
      (∃ chunk, a = .data chunk false) ∨ ¬ headerEnd <:+: cstr (b ++ received before) := by
  have hread : readEntry r round e = doRead (r.env e.2.fd) round (before ++ a :: rest) e.2 e.1 := by
    rw [← hrs]
    exact if_pos ⟨hp, hin.reading⟩
  have h0 : e.1.revents ≠ 0 := by
    intro he
    rw [he] at hp
    exact hp (by decide)
  obtain ⟨hfinal, hserved⟩ :
      (_ → doRead (r.env e.2.fd) round (before ++ a :: rest) e.2 e.1 = _) ∧ _ :=
    doRead_unrecoverable (r.env e.2.fd) round e.1 hin hd ha
  rw [← hread] at hfinal hserved
  constructor
  · intro hg
    by_contra hno
    have hs := hserved hno
    rw [hg.closing] at hs
    cases hs
  · intro hyes
    have hr := hfinal hyes
    have hclosing : (readEntry r round e).client.state = .closing := by rw [hr]
    have hsilent : (readEntry r round e).events = [] := by rw [hr]
    have hremoved : ∀ sends, visitEntry { r with sends := sends } round e =
        .ok ⟨none, .visit e.1 e.2 :: closeEvents (readEntry r round e).client⟩ := by
      intro sends
      have hsame : readEntry { r with sends := sends } round e = readEntry r round e := rfl
      rw [visitEntry_closing h0 hz (by rw [hsame, hclosing]), hsame, hsilent]
      rfl
    refine ⟨hclosing, ?_, hsilent, hremoved r.sends, fun sends => ?_, ?_, ?_⟩
    · rw [hr, (draining_holds hin hd).frame]
      exact ⟨rfl, rfl, rfl, rfl, rfl⟩
    · rw [hremoved sends]
      exact (hremoved r.sends).symm
    · intro s s' hs hk hround he hstep
      subst hround
      exact visit_gone hs hk he hstep (hremoved r.sends) rfl
    · intro r' round' p v hv e' hk
      exact closing_kept hclosing hv hk

section OneDrain

def readyEntry : Entry := (⟨7, pollIn, pollIn ||| pollOut⟩, initClient blankClient 7)

def connectionReset : RecvResult := .fail (.other 104)

def resetRound (before : List RecvResult) : Round :=
  { quietRound with recvs := fun _ => before ++ [connectionReset] }

theorem readyEntry_holds : HoldsInput readyEntry.2 [] readyEntry.2 := ⟨rfl, rfl, rfl, rfl⟩

theorem connectionReset_unrecoverable (c : Client) : Unrecoverable c connectionReset :=
  .error _ ⟨by decide, by decide, by decide⟩

theorem receive_error_final_iff_reset :
    GivenUp (resetRound []) 0 readyEntry :=
  (receive_error_final_iff (resetRound []) 0 readyEntry [] [] [] connectionReset readyEntry.2
    (by decide) (by decide) readyEntry_holds rfl rfl (connectionReset_unrecoverable _)).mpr
    (Or.inr (by decide))

theorem reset_request_served :
    (∃ c', Draining readyEntry.2 getRoot c' ∧ Unrecoverable c' connectionReset) ∧
      (readEntry (resetRound getRoot) 0 readyEntry).client.state = .sendingHeader ∧
      (readEntry (resetRound getRoot) 0 readyEntry).client.outBuf.isSome = true ∧
      ¬ GivenUp (resetRound getRoot) 0 readyEntry := by
  have hs : (readEntry (resetRound getRoot) 0 readyEntry).client.state = .sendingHeader := by
    decide +kernel
  refine ⟨?_, hs, by decide +kernel, fun hg => ?_⟩
  · obtain ⟨c', hc⟩ : ∃ c', Draining readyEntry.2 getRoot c' :=
      Option.isSome_iff_exists.mp (by decide +kernel)
    exact ⟨c', hc, connectionReset_unrecoverable c'⟩
  · rw [hg.closing] at hs
    cases hs

end OneDrain

end SimpleServer
