import SimpleServer.FileHandles

/-!
# No stream is closed that is not open

The second `fclose` of a stream is undefined in C: the GNU library aborts the
process, another library returns `EOF`. Here it is an event like the first one,
so whatever a process is said to do behind it holds only of runs whose trace
`Survives`. There are two ways to it: a `fstat` that fails closes the stream
that `do_read` closes again, and `close_conn` closes the one that `do_read` has
closed behind a response.
-/

namespace SimpleServer

open CString FileTree SlotArray Ledger

/-- No stream is closed more often than it has been opened. -/
def Survives (ev : List Event) : Prop := (settle 0 (handles ev)).isSome = true

instance (ev : List Event) : Decidable (Survives ev) :=
  inferInstanceAs (Decidable (_ = true))

/-- What the visit serves can be examined and is not sent off in this very visit
where it is a stream, and a client that names one is neither dropped nor sent
to. -/
def ClosesOnce (r : Round) (_round : ℕ) (e : Entry) : Prop :=
  (∀ path ∈ servedPath r e, streamFate (r.env e.2.fd) path ≠ .unexamined ∧
    (e.1.revents &&& pollOut ≠ 0 → streamFate (r.env e.2.fd) path ≠ .shared)) ∧
  (e.2.filePtr ≠ none → e.1.revents &&& pollFailed = 0 ∧ e.1.revents &&& pollOut = 0)

instance (r : Round) (round : ℕ) (e : Entry) : Decidable (ClosesOnce r round e) :=
  inferInstanceAs (Decidable (_ ∧ _))

/-- A client that names a stream has opened it and is sending. -/
def NamesOwn (e : Entry) : Prop :=
  ∀ x, e.2.filePtr = some x →
    x.fd = e.2.fd ∧ (e.2.state = .sendingHeader ∨ e.2.state = .sendingBody)

section Serving

variable {env : Env} {round : ℕ} {c : Client} {p : PollFd} {buf : Bytes}

theorem serve_survives :
    Survives (serve env round c p buf).events ↔
      ((parsed env c buf).ret = 0 → streamFate env (parsed env c buf).out.path ≠ .unexamined) := by
  by_cases hp : (parsed env c buf).ret = 0
  · rw [Survives, (serve_accepted hp).1]
    have hfate : HandleFate round c (resolved env round c buf)
      (streamFate env (parsed env c buf).out.path) := resolved_fate
    generalize streamFate env (parsed env c buf).out.path = fate at hfate ⊢
    simp only [hp, true_implies]
    cases hfate with
    | nothing hst =>
      rw [hst.rp, (Moves.of_replay_nil hst.ledger).settle_append]
      simp [settle]
    | unexamined x _ hst =>
      rw [hst.rp, (Moves.of_replay_nil hst.ledger).settle_append]
      simp [settle, spend]
    | refused x _ hst =>
      rw [hst.rp, (Moves.of_replay_nil hst.ledger).settle_append]
      simp [settle]
    | shared x _ hst =>
      rw [hst.rp, (Moves.of_replay_nil hst.ledger).settle_append]
      simp [settle, spend]
  · rw [Survives, (serve_refused hp).1]
    simp [hp, settle]

end Serving

section Visits

variable {r : Round} {round : ℕ} {e e' : Entry} {v : Visit}

theorem NamesOwn.reading (h : NamesOwn e) (hst : e.2.state = .reading) : e.2.filePtr = none := by
  cases hp : e.2.filePtr with
  | none => rfl
  | some x =>
    rcases (h x hp).2 with hs | hs <;> rw [hst] at hs <;> cases hs

theorem servedPath_reading {path : Bytes} (h : servedPath r e = some path) :
    e.2.state = .reading := by
  simp only [servedPath] at h
  split at h
  · rename_i hcond
    exact hcond.2.2.1
  · cases h

theorem visitEntry_gone_iff (hz : e.1.revents &&& pollFailed = 0)
    (hst : (readEntry r round e).client.state = .sendingHeader ∨
      (readEntry r round e).client.state = .sendingBody)
    (h : visitEntry r round e = .ok v) : v.kept = none ↔ e.1.revents &&& pollOut ≠ 0 := by
  have hwait : ∀ {w : WriteOutcome}, e.1.revents &&& pollOut = 0 →
      writeEntry r e.1.revents (readEntry r round e).client = .ok w →
      w.client.state ≠ .closing := by
    intro w ho hw hc
    rw [writeEntry, if_neg (fun hn => hn.1 ho)] at hw
    cases hw
    rcases hst with hs | hs <;> rw [hs] at hc <;> cases hc
  have hsend : ∀ {w : WriteOutcome}, e.1.revents &&& pollOut ≠ 0 →
      writeEntry r e.1.revents (readEntry r round e).client = .ok w →
      w.client.state = .closing := by
    intro w ho hw
    rw [writeEntry, if_pos ⟨ho, hst⟩] at hw
    exact (doWrite_ok hw).1
  cases visitEntry_cases h with
  | idle h0 => simp [h0]
  | failed _ h1 => exact absurd hz h1
  | closing w _ _ hw hc => simpa using fun ho => hwait ho hw hc
  | kept w _ _ hw hc => simpa using by_contra fun ho => hc (hsend ho hw)

theorem readEntry_own (hown : NamesOwn e) (hz : e.1.revents &&& pollFailed = 0) :
    NamesOwn ((readEntry r round e).pollFd, (readEntry r round e).client) := by
  intro x hn
  change (readEntry r round e).client.filePtr = some x at hn
  change x.fd = (readEntry r round e).client.fd ∧ _
  rw [readEntry_fd.1]
  cases hs : servedPath r e with
  | none =>
    rw [(readEntry_unserved round hz hs).2] at hn
    obtain ⟨hfd, hst⟩ := hown x hn
    have hread : readEntry r round e = ⟨e.2, e.1, []⟩ := by
      refine if_neg fun hr => ?_
      rcases hst with hst | hst <;> rw [hr.2] at hst <;> cases hst
    rw [hread]
    exact ⟨hfd, hst⟩
  | some path =>
    have hnone := hown.reading (servedPath_reading hs)
    obtain ⟨-, -, hst, rr, hfate, -, hptr⟩ := readEntry_served round hs
    rw [hptr] at hn
    generalize streamFate (r.env e.2.fd) path = fate at hfate
    cases hfate with
    | shared y hof hr =>
      rw [hr.client] at hn
      cases hn
      exact ⟨hof.2, Or.inl hst⟩
    | nothing hr => cases hn.symm.trans (hr.client.trans hnone)
    | unexamined _ _ hr => cases hn.symm.trans (hr.client.trans hnone)
    | refused _ _ hr => cases hn.symm.trans (hr.client.trans hnone)

theorem visitEntry_own (hown : NamesOwn e) (h : visitEntry r round e = .ok v)
    (hk : v.kept = some e') : NamesOwn e' := by
  rcases visitEntry_kept h hk with ⟨rfl, -⟩ | ⟨hz, -, rfl⟩
  · exact hown
  · exact readEntry_own hown hz

structure ReadFiles (r : Round) (round : ℕ) (e : Entry) (leaked : Multiset Handle) : Prop where
  ledger : Moves (handles (readEntry r round e).events) 0 leaked
  own : ∀ x ∈ leaked, x.Of round e.2.fd
  named : ∀ x, (readEntry r round e).client.filePtr = some x → x ∉ leaked ∧
    (e.2.filePtr = some x ∨
      x.Of round e.2.fd ∧ ∃ path ∈ servedPath r e, streamFate (r.env e.2.fd) path = .shared)

theorem readEntry_files (hown : NamesOwn e) (hz : e.1.revents &&& pollFailed = 0)
    (hx : ∀ path ∈ servedPath r e, streamFate (r.env e.2.fd) path ≠ .unexamined) :
    ∃ leaked, ReadFiles r round e leaked := by
  cases hs : servedPath r e with
  | none =>
    obtain ⟨hled, hptr⟩ := readEntry_unserved round hz hs
    exact ⟨0, hled ▸ .nil 0, (fun x hx => absurd hx (Multiset.notMem_zero x)),
      fun x hn => ⟨Multiset.notMem_zero x, Or.inl (hptr ▸ hn)⟩⟩
  | some path =>
    have hnone := hown.reading (servedPath_reading hs)
    obtain ⟨-, -, -, rr, hfate, hled, hptr⟩ := readEntry_served round hs
    have hne := hx path hs
    have hsh : streamFate (r.env e.2.fd) path = .shared →
        ∃ path ∈ servedPath r e, streamFate (r.env e.2.fd) path = .shared :=
      fun h => ⟨path, hs, h⟩
    generalize streamFate (r.env e.2.fd) path = fate at hfate hne hsh
    cases hfate with
    | nothing hr =>
      have hmoves := Moves.of_replay_nil hr.ledger
      rw [hr.rp, Option.toList_none, List.map_nil, List.append_nil] at hled
      rw [hr.client, hnone] at hptr
      exact ⟨0, hled ▸ hmoves, (fun x hx => absurd hx (Multiset.notMem_zero x)),
        fun x hn => by cases hptr.symm.trans hn⟩
    | unexamined => exact absurd rfl hne
    | refused x hof hr =>
      have hmoves := Moves.of_replay_nil hr.ledger
      rw [hr.rp, Option.toList_none, List.map_nil, List.append_nil] at hled
      rw [hr.client, hnone] at hptr
      refine ⟨{x}, hled ▸ hmoves, fun y hy => ?_, fun y hn => by cases hptr.symm.trans hn⟩
      rw [Multiset.mem_singleton.mp hy]
      exact hof
    | shared x hof hr =>
      have hmoves := (Moves.of_replay_nil hr.ledger).append (Moves.give x)
      rw [hr.rp, Option.toList_some, List.map_singleton] at hled
      refine ⟨0, hled ▸ hmoves, (fun x hx => absurd hx (Multiset.notMem_zero x)), fun y hn => ?_⟩
      rw [hptr, hr.client] at hn
      cases hn
      exact ⟨Multiset.notMem_zero x, Or.inr ⟨hof, hsh rfl⟩⟩

theorem readEntry_names (hown : NamesOwn e) (hz : e.1.revents &&& pollFailed = 0)
    (hx : ∀ path ∈ servedPath r e, streamFate (r.env e.2.fd) path ≠ .unexamined)
    (hc : ¬ ClosesOnce r round e) :
    e.1.revents &&& pollOut ≠ 0 ∧ ∃ x, (readEntry r round e).client.filePtr = some x := by
  cases hs : servedPath r e with
  | none =>
    have hn : e.2.filePtr ≠ none ∧ e.1.revents &&& pollOut ≠ 0 := by
      by_contra hn
      refine hc ⟨fun path hp => ?_, fun hne => ⟨hz, by_contra fun ho => hn ⟨hne, ho⟩⟩⟩
      rw [hs] at hp
      cases hp
    obtain ⟨-, hptr⟩ := readEntry_unserved round hz hs
    exact ⟨hn.2, hptr ▸ Option.ne_none_iff_exists'.mp hn.1⟩
  | some path =>
    have hnone := hown.reading (servedPath_reading hs)
    have hsent : e.1.revents &&& pollOut ≠ 0 ∧ streamFate (r.env e.2.fd) path = .shared := by
      by_contra hn
      refine hc ⟨fun path' hp => ⟨hx path' hp, fun ho hsh => hn ⟨ho, ?_⟩⟩,
        fun hne => absurd hnone hne⟩
      cases Option.some.inj (hs.symm.trans hp)
      exact hsh
    obtain ⟨-, -, -, rr, hfate, -, hptr⟩ := readEntry_served round hs
    rw [hsent.2] at hfate
    cases hfate with
    | shared x _ hst => exact ⟨hsent.1, x, hptr.trans hst.client⟩

theorem visitEntry_once (hown : NamesOwn e) (hc : ClosesOnce r round e)
    (h : visitEntry r round e = .ok v) :
    ∃ leaked, Moves (handles v.events) 0 leaked ∧ (∀ x ∈ leaked, x.Of round e.2.fd) ∧
      ∀ e', v.kept = some e' → ∀ x, e'.2.filePtr = some x →
        x ∉ leaked ∧ (e.2.filePtr = some x ∨ x.Of round e.2.fd) := by
  by_cases h0 : e.1.revents = 0
  · rw [visitEntry_idle h0] at h
    cases h
    refine ⟨0, .nil 0, (fun x hx => absurd hx (Multiset.notMem_zero x)), fun e' hk => ?_⟩
    cases hk
    exact fun x hn => ⟨Multiset.notMem_zero x, Or.inl hn⟩
  by_cases h1 : e.1.revents &&& pollFailed ≠ 0
  · have hnone : e.2.filePtr = none := by_contra fun hn => h1 (hc.2 hn).1
    rw [visitEntry_failed h0 h1] at h
    cases h
    refine ⟨0, ?_, (fun x hx => absurd hx (Multiset.notMem_zero x)), fun e' hk => by cases hk⟩
    rw [handles_visit, handles_closeEvents, hnone]
    exact .nil 0
  have hz := not_not.mp h1
  obtain ⟨leaked, hf⟩ : ∃ leaked, ReadFiles r round e leaked :=
    readEntry_files hown hz fun path hp => (hc.1 path hp).1
  -- whoever names a stream is not sent to in this visit, and stays
  have hquiet : ∀ x, (readEntry r round e).client.filePtr = some x →
      e.1.revents &&& pollOut = 0 := by
    intro x hn
    rcases (hf.named x hn).2 with hn | ⟨-, path, hp, hsh⟩
    · exact (hc.2 (by rw [hn]; exact Option.some_ne_none x)).2
    · exact by_contra fun ho => (hc.1 path hp).2 ho hsh
  refine ⟨leaked, ?_, hf.own, ?_⟩
  · rcases visitEntry_handles h h0 hz with ⟨hk, hled⟩ | ⟨e', hk, -, hled⟩
    · cases hp : (readEntry r round e).client.filePtr with
      | none =>
        rw [hled, hp, Option.toList_none, List.map_nil, List.append_nil]
        exact hf.ledger
      | some x =>
        have hst := (@readEntry_own r round e hown hz x hp).2
        exact absurd (hquiet x hp) ((visitEntry_gone_iff hz hst h).mp hk)
    · rw [hled]
      exact hf.ledger
  · intro e' hk
    rcases visitEntry_kept h hk with ⟨-, h0'⟩ | ⟨-, -, rfl⟩
    · exact absurd h0' h0
    · exact fun x hn => ⟨(hf.named x hn).1, (hf.named x hn).2.imp_right And.left⟩

theorem visitEntry_twice (hown : NamesOwn e) (hc : ¬ ClosesOnce r round e)
    (h : visitEntry r round e = .ok v) :
    ∃ x, (e.2.filePtr = some x ∨ x.Of round e.2.fd) ∧
      ∀ held, x ∉ held → settle held (handles v.events) = none := by
  by_cases hx : ∀ path ∈ servedPath r e, streamFate (r.env e.2.fd) path ≠ .unexamined
  · by_cases h1 : e.1.revents &&& pollFailed ≠ 0
    · have hs : servedPath r e = none := if_neg fun hn => h1 hn.1
      have hn : e.2.filePtr ≠ none := fun hn => hc ⟨(fun _ hp => by rw [hs] at hp; cases hp),
        fun hne => absurd hn hne⟩
      obtain ⟨x, hp⟩ := Option.ne_none_iff_exists'.mp hn
      have h0 : e.1.revents ≠ 0 := fun h0 => h1 (by rw [h0]; decide)
      rw [visitEntry_failed h0 h1] at h
      cases h
      refine ⟨x, Or.inl hp, fun held hx => ?_⟩
      rw [handles_visit, handles_closeEvents, hp]
      exact settle_give_none hx _
    · have hz := not_not.mp h1
      obtain ⟨leaked, hf⟩ : ∃ leaked, ReadFiles r round e leaked := readEntry_files hown hz hx
      obtain ⟨ho, x, hn⟩ : e.1.revents &&& pollOut ≠ 0 ∧
          ∃ x, (readEntry r round e).client.filePtr = some x :=
        readEntry_names hown hz hx hc
      obtain ⟨hleak, hof⟩ := hf.named x hn
      have hst := (@readEntry_own r round e hown hz x hn).2
      have hgone := (visitEntry_gone_iff hz hst h).mpr ho
      have h0 : e.1.revents ≠ 0 := fun h0 => ho (by rw [h0]; decide)
      refine ⟨x, hof.imp_right And.left, fun held hx => ?_⟩
      rcases visitEntry_handles h h0 hz with ⟨-, hv⟩ | ⟨e', hk, -⟩
      · rw [hv, hn, hf.ledger.settle_append]
        exact settle_give_none (by simp [hleak, hx]) _
      · rw [hgone] at hk
        cases hk
  · simp only [not_forall, not_not] at hx
    obtain ⟨path, hs, hfate⟩ := hx
    obtain ⟨hz, h0, -, rr, hr, hled, -⟩ := readEntry_served round hs
    rw [hfate] at hr
    cases hr with
    | unexamined x hof hst =>
      refine ⟨x, Or.inr hof, fun held hx => ?_⟩
      have hmoves := Moves.of_replay_nil hst.ledger
      rw [hst.rp, Option.toList_some, List.map_singleton] at hled
      rcases visitEntry_handles h h0 hz with ⟨-, hv⟩ | ⟨e', -, -, hv⟩
      · rw [hv, hled, List.append_assoc, hmoves.settle_append]
        exact settle_give_none (by simpa using hx) _
      · rw [hv, hled, hmoves.settle_append]
        exact settle_give_none (by simpa using hx) _

end Visits

end SimpleServer
