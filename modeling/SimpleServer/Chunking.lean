import SimpleServer.ConnectionMap
import SimpleServer.UnreadMembers

/-!
# How a request reaches the parser

Whatever the chunks and wakeups in which a byte stream arrives, the client
record holds what has arrived so far, and every drain ends with a search from
the start of the buffer. The first terminator of a stream stays where it is
when more bytes follow, so the request is the same for all deliveries; the
parser looks at no byte behind it.
-/

namespace SimpleServer

open CString FileTree

def received : List RecvResult → Bytes
  | [] => []
  | .data chunk _ :: rest => chunk.bytes ++ received rest
  | .eof :: _ => []
  | .fail _ :: rest => received rest

def Calm (a : RecvResult) : Prop := (∃ chunk, a = .data chunk true) ∨ a = .fail .EINTR

/-- The client reads, and its buffer holds `b`. -/
structure HoldsInput (base : Client) (b : Bytes) (c : Client) : Prop where
  reading : base.state = .reading
  frame : c = { base with
    inBuf := c.inBuf, inputLength := c.inputLength, inputCapacity := c.inputCapacity }
  length : c.inputLength = b.length
  buf : c.inBuf.getD [] = b

section Drain

variable {base c : Client} {b data : Bytes} {rs : List RecvResult}

theorem HoldsInput.state (h : HoldsInput base b c) : c.state = .reading := by
  rw [h.frame]
  exact h.reading

theorem HoldsInput.stored (h : HoldsInput base b c) (cap : ℕ) (data : Bytes) :
    HoldsInput base (b ++ data) (store { c with inputCapacity := cap } data) := by
  refine ⟨h.reading, ?_, ?_, ?_⟩
  · rw [store, h.frame]
  · simp [store, h.length]
  · simp [store, h.buf, h.length]

theorem append_holds (h : HoldsInput base b c) (hl : b.length + data.length ≤ maxRequestSize) :
    HoldsInput base (b ++ data) (append c data true) := by
  have hlen := h.length
  obtain ⟨cap, hs⟩ : ∃ cap, append c data true = store _ data :=
    append_stored (by omega) (by simp)
  rw [hs]
  exact h.stored cap data

theorem recvLoop_stored {chunk : Chunk} (h : HoldsInput base b c)
    (hl : b.length + chunk.bytes.length ≤ maxRequestSize) :
    recvLoop c (.data chunk true :: rs) = recvLoop (append c chunk.bytes true) rs := by
  have hs := (append_holds h hl).state
  simp only [recvLoop, hs, ne_eq, not_true, if_false]

theorem recvLoop_calm (h : HoldsInput base b c) (hc : ∀ a ∈ rs, Calm a)
    (hl : b.length + (received rs).length ≤ maxRequestSize) :
    (recvLoop c rs).2 = true ∧ HoldsInput base (b ++ received rs) (recvLoop c rs).1 := by
  induction rs generalizing b c with
  | nil =>
    rw [received, List.append_nil]
    exact ⟨rfl, h⟩
  | cons a rs ih =>
    have hrest : ∀ x ∈ rs, Calm x := fun x hx => hc x (List.mem_cons_of_mem _ hx)
    rcases hc a List.mem_cons_self with ⟨chunk, rfl⟩ | rfl
    · rw [received, List.length_append] at hl
      rw [received, ← List.append_assoc, recvLoop_stored h (by omega)]
      apply ih (append_holds h (by omega)) hrest
      rw [List.length_append]
      omega
    · exact ih h hrest hl

theorem HoldsInput.inBuf (h : HoldsInput base b c) (hb : b ≠ []) : c.inBuf = some b := by
  have hbuf := h.buf
  cases hc : c.inBuf with
  | none =>
    rw [hc] at hbuf
    exact absurd hbuf.symm hb
  | some x =>
    rw [hc] at hbuf
    exact congrArg some hbuf

theorem HoldsInput.search {buf : Bytes} (h : HoldsInput base b c) (hb : c.inBuf = some buf) :
    buf = b ∧ strnstr buf headerEnd c.inputLength = findSub headerEnd (cstr b) := by
  have he : buf = b := by
    have hg := h.buf
    rw [hb] at hg
    exact hg
  rw [he, h.length]
  exact ⟨rfl, strnstr_length _ _⟩

theorem HoldsInput.serve_eq {env : Env} {round k : ℕ} {p : PollFd} (h : HoldsInput base b c) :
    serve env round { c with headerLen := k } p b =
      (serve env round { base with headerLen := k } p b).setUnread
        ⟨c.inBuf, c.inputLength, c.inputCapacity, base.timestamp⟩ := by
  rw [← serve_setUnread]
  congr 1
  rw [h.frame]
  rfl

theorem doRead_calm (env : Env) (round : ℕ) (p : PollFd) (h : HoldsInput base b c)
    (hc : ∀ a ∈ rs, Calm a) (hl : b.length + (received rs).length ≤ maxRequestSize) :
    ∃ c', HoldsInput base (b ++ received rs) c' ∧
      (findSub headerEnd (cstr (b ++ received rs)) = none → doRead env round rs c p = ⟨c', p, []⟩) ∧
      ∀ k, findSub headerEnd (cstr (b ++ received rs)) = some k →
        doRead env round rs c p =
          serve env round { c' with headerLen := k + 4 } p (b ++ received rs) := by
  obtain ⟨hflag, hin⟩ := recvLoop_calm h hc hl
  refine ⟨(recvLoop c rs).1, hin, ?_⟩
  generalize b ++ received rs = b' at hin
  have hlen := hin.length
  rcases doRead_cases env round rs c p with ⟨hd, hwhy⟩ | ⟨buf, j, -, hbuf, -, hk, hd⟩
  · refine ⟨fun _ => hd, ?_⟩
    intro k hfound
    have hpos := findSub_cstr_le_length (by decide) hfound
    have hne : b' ≠ [] := by
      intro he
      rw [he] at hpos
      exact absurd hpos (by simp [headerEnd])
    rcases hwhy with hw | hw | hw | ⟨buf, hbuf, hw⟩
    · rw [hflag] at hw
      cases hw
    · rw [hin.inBuf hne] at hw
      cases hw
    · exact absurd (List.length_eq_zero_iff.mp (hlen.symm.trans hw)) hne
    · rw [(hin.search hbuf).2, hfound] at hw
      cases hw
  · obtain ⟨rfl, hs⟩ := hin.search hbuf
    rw [hs] at hk
    refine ⟨fun hnone => ?_, fun k hfound => ?_⟩
    · rw [hk] at hnone
      cases hnone
    · rw [hk] at hfound
      cases hfound
      exact hd

end Drain

/-- The calls of `do_read` that `main` makes for one client: only while it is
`READING`. The handles opened are named by `round`. -/
def deliver (env : Env) (round : ℕ) : List (List RecvResult) → Client → PollFd → ReadOutcome
  | [], c, p => ⟨c, p, []⟩
  | rs :: rest, c, p =>
    if c.state = .reading then
      let o := doRead env round rs c p
      let o' := deliver env round rest o.client o.pollFd
      { o' with events := o.events ++ o'.events }
    else ⟨c, p, []⟩

/-- An outcome without the input buffer and the `timestamp`, which nothing
behind the parser reads. -/
def ReadOutcome.staged (o : ReadOutcome) : ReadOutcome := o.setUnread ⟨none, 0, 0, []⟩

def outcomeOf (env : Env) (round : ℕ) (c : Client) (p : PollFd) (s : Bytes) : ReadOutcome :=
  match strnstr s headerEnd s.length with
  | none => ⟨c, p, []⟩
  | some k => serve env round { c with headerLen := k + 4 } p (s.take (k + 4))

section Deliveries

variable {env : Env} {round : ℕ} {base c : Client} {p : PollFd} {b s : Bytes}

theorem serve_take (env : Env) (round : ℕ) (c : Client) (p : PollFd) (buf : Bytes) :
    serve env round c p (buf.take c.headerLen) = serve env round c p buf := by
  have hr : respond env round c (buf.take c.headerLen) = respond env round c buf := by
    simp only [respond, parseRequest_take]
  rw [serve, serve, hr]

theorem staged_setUnread (o : ReadOutcome) (u : Unread) : (o.setUnread u).staged = o.staged := rfl

theorem deliver_served {ds : List (List RecvResult)} (hst : c.state ≠ .reading) :
    deliver env round ds c p = ⟨c, p, []⟩ := by
  cases ds with
  | nil => rfl
  | cons rs ds => exact if_neg hst

theorem deliver_cons {rs : List RecvResult} {ds : List (List RecvResult)}
    (hst : c.state = .reading) :
    deliver env round (rs :: ds) c p =
      { deliver env round ds (doRead env round rs c p).client (doRead env round rs c p).pollFd with
        events := (doRead env round rs c p).events ++
          (deliver env round ds (doRead env round rs c p).client
            (doRead env round rs c p).pollFd).events } := if_pos hst

theorem serve_not_reading (env : Env) (round : ℕ) (c : Client) (p : PollFd) (buf : Bytes) :
    (serve env round c p buf).client.state ≠ .reading := by
  simp [serve]

theorem deliver_unfinished {ds : List (List RecvResult)} (env : Env) (round : ℕ) (p : PollFd)
    (h : HoldsInput base b c) (hd : ∀ rs ∈ ds, ∀ a ∈ rs, Calm a)
    (hl : b.length + (ds.flatMap received).length ≤ maxRequestSize)
    (hno : findSub headerEnd (cstr (b ++ ds.flatMap received)) = none) :
    ∃ c', HoldsInput base (b ++ ds.flatMap received) c' ∧
      ∀ ds', deliver env round (ds ++ ds') c p = deliver env round ds' c' p := by
  induction ds generalizing b c with
  | nil =>
    rw [List.flatMap_nil, List.append_nil]
    exact ⟨c, h, fun ds' => rfl⟩
  | cons rs ds ih =>
    rw [List.flatMap_cons, List.length_append] at hl
    rw [List.flatMap_cons, ← List.append_assoc] at hno ⊢
    have hfirst : findSub headerEnd (cstr (b ++ received rs)) = none := by
      cases hf : findSub headerEnd (cstr (b ++ received rs)) with
      | none => rfl
      | some j =>
        rw [findSub_cstr_append (by decide) hf] at hno
        cases hno
    obtain ⟨c₁, h1, hread, -⟩ := doRead_calm env round p h (hd rs List.mem_cons_self) (by omega)
    obtain ⟨c', h', hrest⟩ := ih h1 (fun rs hrs => hd rs (List.mem_cons_of_mem _ hrs))
      (by rw [List.length_append]; omega) hno
    refine ⟨c', h', fun ds' => ?_⟩
    rw [List.cons_append, deliver_cons h.state, hread hfirst]
    exact hrest ds'

theorem deliver_finished {ds : List (List RecvResult)} {k : ℕ} (env : Env) (round : ℕ) (p : PollFd)
    (h : HoldsInput base b c) (hb : findSub headerEnd (cstr b) = none)
    (hd : ∀ rs ∈ ds, ∀ a ∈ rs, Calm a)
    (hl : b.length + (ds.flatMap received).length ≤ maxRequestSize)
    (hk : findSub headerEnd (cstr (b ++ ds.flatMap received)) = some k) :
    ∃ c' buf, HoldsInput base buf c' ∧ buf <+: b ++ ds.flatMap received ∧ k + 4 ≤ buf.length ∧
      deliver env round ds c p = serve env round { c' with headerLen := k + 4 } p buf := by
  induction ds generalizing b c with
  | nil =>
    rw [List.flatMap_nil, List.append_nil, hb] at hk
    cases hk
  | cons rs ds ih =>
    rw [List.flatMap_cons, List.length_append] at hl
    rw [List.flatMap_cons, ← List.append_assoc] at hk ⊢
    obtain ⟨c₁, h1, hno, hyes⟩ := doRead_calm env round p h (hd rs List.mem_cons_self) (by omega)
    rw [deliver_cons h.state]
    cases hf : findSub headerEnd (cstr (b ++ received rs)) with
    | none =>
      rw [hno hf]
      exact ih h1 hf (fun rs hrs => hd rs (List.mem_cons_of_mem _ hrs))
        (by rw [List.length_append]; omega) hk
    | some j =>
      rw [findSub_cstr_append (by decide) hf] at hk
      cases hk
      rw [hyes k hf, deliver_served (serve_not_reading _ _ _ _ _)]
      refine ⟨c₁, b ++ received rs, h1, List.prefix_append _ _,
        findSub_cstr_le_length (by decide) hf, ?_⟩
      rw [List.append_nil]

theorem HoldsInput.fresh (fd : ℕ) (timestamp clientAddr : Bytes) :
    HoldsInput (freshEntry fd timestamp clientAddr).2 []
      (freshEntry fd timestamp clientAddr).2 := ⟨rfl, rfl, rfl, rfl⟩

theorem HoldsInput.staged {k : ℕ} {buf : Bytes} (h : HoldsInput base buf c) (hp : buf <+: s)
    (hk : k + 4 ≤ buf.length) :
    (serve env round { c with headerLen := k + 4 } p buf).staged =
      (serve env round { base with headerLen := k + 4 } p (s.take (k + 4))).staged := by
  have ht : s.take (k + 4) = buf.take (k + 4) := by
    obtain ⟨t, rfl⟩ := hp
    exact List.take_append_of_le_length hk
  have hs := serve_take env round { base with headerLen := k + 4 } p buf
  rw [h.serve_eq, staged_setUnread, ht]
  exact congrArg ReadOutcome.staged hs.symm

end Deliveries

/-- A stream that fits the input buffer has one outcome, however it is cut into
chunks and wakeups: that of its first terminator. -/
theorem deliver_chunking_independent (env : Env) (round fd : ℕ) (timestamp clientAddr s : Bytes)
    (hs : s.length ≤ maxRequestSize) (ds : List (List RecvResult))
    (hcalm : ∀ rs ∈ ds, ∀ a ∈ rs, Calm a) (hsum : ds.flatMap received = s) :
    let e := freshEntry fd timestamp clientAddr
    (deliver env round ds e.2 e.1).staged = (outcomeOf env round e.2 e.1 s).staged ∧
    (strnstr s headerEnd s.length = none →
      (deliver env round ds e.2 e.1).client.state = .reading ∧
      (deliver env round ds e.2 e.1).client.inBuf.getD [] = s) ∧
    ∀ k, strnstr s headerEnd s.length = some k →
      ∃ (c : Client) (buf : Bytes), c.inBuf = some buf ∧ buf.take (k + 4) = s.take (k + 4) ∧
        deliver env round ds e.2 e.1 = serve env round { c with headerLen := k + 4 } e.1 buf := by
  intro e
  subst hsum
  have h := HoldsInput.fresh fd timestamp clientAddr
  have hl : ([] : Bytes).length + (ds.flatMap received).length ≤ maxRequestSize := by
    simpa using hs
  rw [strnstr_length]
  cases hf : findSub headerEnd (cstr (ds.flatMap received)) with
  | none =>
    obtain ⟨c', h', hd⟩ := deliver_unfinished env round e.1 h hcalm hl hf
    have hd := hd []
    rw [List.append_nil] at hd
    rw [outcomeOf, strnstr_length, hf, hd]
    refine ⟨?_, fun _ => ⟨h'.state, h'.buf⟩, fun _ hj => by cases hj⟩
    simp only [ReadOutcome.staged, ReadOutcome.setUnread, deliver]
    rw [h'.frame]
    rfl
  | some k =>
    obtain ⟨c', buf, h', hp, hk, hd⟩ := deliver_finished env round e.1 h rfl hcalm hl hf
    rw [outcomeOf, strnstr_length, hf, hd]
    refine ⟨h'.staged hp hk, (fun h => by cases h), fun j hj => ?_⟩
    cases hj
    refine ⟨c', buf, h'.inBuf ?_, ?_, rfl⟩
    · intro he
      rw [he] at hk
      exact absurd hk (by simp)
    · obtain ⟨t, ht⟩ := hp
      rw [← List.take_append_of_le_length hk, ht]
      rfl

def splitDelivery : List (List RecvResult) :=
  [[.data ⟨ascii "GET / HTTP/1.0\r\n\r", by decide, by decide⟩ true],
    [.fail .EINTR, .data ⟨ascii "\nxy", by decide, by decide⟩ true]]

theorem deliver_chunking_independent_split :
    let s := ascii "GET / HTTP/1.0\r\n\r\nxy"
    let e := freshEntry 7 [] []
    splitDelivery.flatMap received = s ∧ s.length ≤ maxRequestSize ∧
      (deliver emptyEnv 0 splitDelivery e.2 e.1).staged =
        (outcomeOf emptyEnv 0 e.2 e.1 s).staged := by
  intro s e
  have hs : s.length ≤ maxRequestSize := by decide +kernel
  have hsum : splitDelivery.flatMap received = s := by decide +kernel
  have hcalm : ∀ rs ∈ splitDelivery, ∀ a ∈ rs, Calm a := by simp [splitDelivery, Calm]
  exact ⟨hsum, hs, (deliver_chunking_independent emptyEnv 0 7 [] [] s hs splitDelivery hcalm
    hsum).1⟩

def FromPeer (a : RecvResult) : Prop := Calm a ∨ a = .eof

section Tail

variable {base c : Client} {b : Bytes} {rs : List RecvResult}

theorem recvLoop_too_long (h : HoldsInput base b c) (hp : ∀ a ∈ rs, FromPeer a)
    (hb : b.length ≤ maxRequestSize) (hl : maxRequestSize < b.length + (received rs).length) :
    (recvLoop c rs).1.state = .processing ∧ (recvLoop c rs).2 = false := by
  induction rs generalizing b c with
  | nil => exact absurd hl (by simp [received, hb])
  | cons a rs ih =>
    have hrest : ∀ x ∈ rs, FromPeer x := fun x hx => hp x (List.mem_cons_of_mem _ hx)
    rcases hp a List.mem_cons_self with (⟨chunk, rfl⟩ | rfl) | rfl
    · rw [received, List.length_append] at hl
      rcases Nat.lt_or_ge maxRequestSize (b.length + chunk.bytes.length) with hover | hfits
      · have ha : append c chunk.bytes true = _ := append_over (by rw [h.length]; exact hover)
        simp [recvLoop, ha]
      · rw [recvLoop_stored h hfits]
        apply ih (append_holds h hfits) hrest
        · rw [List.length_append]
          exact hfits
        · rw [List.length_append]
          omega
    · exact ih h hrest hb hl
    · exact absurd hl (by simp [received, hb])

theorem recvLoop_eof (h : HoldsInput base b c) (hp : ∀ a ∈ rs, FromPeer a)
    (hl : b.length + (received rs).length ≤ maxRequestSize) (he : .eof ∈ rs) :
    (recvLoop c rs).1.state = .closing ∧ (recvLoop c rs).2 = false := by
  induction rs generalizing b c with
  | nil => cases he
  | cons a rs ih =>
    have hrest : ∀ x ∈ rs, FromPeer x := fun x hx => hp x (List.mem_cons_of_mem _ hx)
    rcases hp a List.mem_cons_self with (⟨chunk, rfl⟩ | rfl) | rfl
    · rw [received, List.length_append] at hl
      rw [recvLoop_stored h (by omega)]
      apply ih (append_holds h (by omega)) hrest
      · rw [List.length_append]
        omega
      · simpa using he
    · exact ih h hrest hl (by simpa using he)
    · exact ⟨rfl, rfl⟩

theorem doRead_given_up {env : Env} {round : ℕ} {p : PollFd} (h : (recvLoop c rs).2 = false) :
    doRead env round rs c p = ⟨(recvLoop c rs).1, p, []⟩ := if_pos h

end Tail

/-- The request that `s` begins with has been answered. -/
def Answered (env : Env) (round : ℕ) (e : Entry) (s : Bytes) (o : ReadOutcome) : Prop :=
  o.client.state = .sendingHeader ∧ o.staged = (outcomeOf env round e.2 e.1 s).staged

instance (env : Env) (round : ℕ) (e : Entry) (s : Bytes) (o : ReadOutcome) :
    Decidable (Answered env round e s o) := inferInstanceAs (Decidable (_ ∧ _))

/-- A complete request is answered if and only if, in the drain that brings its
end, no end of file follows and what has come in all stays within the limit. -/
theorem answered_iff (env : Env) (round fd : ℕ) (timestamp clientAddr : Bytes)
    (ds : List (List RecvResult)) (rs : List RecvResult) (later : List (List RecvResult))
    (hcalm : ∀ d ∈ ds, ∀ a ∈ d, Calm a) (hpeer : ∀ a ∈ rs, FromPeer a) (k : ℕ)
    (hb : strnstr (ds.flatMap received) headerEnd (ds.flatMap received).length = none)
    (hk : strnstr (ds.flatMap received ++ received rs) headerEnd
      (ds.flatMap received ++ received rs).length = some k)
    (hlim : k + 4 ≤ maxRequestSize) :
    let e := freshEntry fd timestamp clientAddr
    Answered env round e (ds.flatMap received ++ received rs)
        (deliver env round (ds ++ rs :: later) e.2 e.1) ↔
      .eof ∉ rs ∧ (ds.flatMap received ++ received rs).length ≤ maxRequestSize := by
  intro e
  rw [strnstr_length] at hb hk
  generalize hbd : ds.flatMap received = b at hb hk ⊢
  have hblen : b.length ≤ maxRequestSize := by
    by_contra hlong
    have htake := findSub_cstr_take (by decide) hk hlim
    rw [List.take_append_of_le_length (by omega)] at htake
    rw [findSub_cstr_of_take (by decide) htake] at hb
    cases hb
  subst hbd
  obtain ⟨c', h', hdel⟩ := deliver_unfinished env round e.1
    (HoldsInput.fresh fd timestamp clientAddr) hcalm (by simpa using hblen) hb
  rw [List.nil_append] at h'
  rw [hdel, deliver_cons h'.state]
  generalize ds.flatMap received = b at h' hb hk hblen ⊢
  have hgiven : ∀ st, (recvLoop c' rs).1.state = st ∧ (recvLoop c' rs).2 = false →
      st ≠ .reading → st ≠ .sendingHeader →
      ¬ Answered env round e (b ++ received rs)
        { deliver env round later (doRead env round rs c' e.1).client
            (doRead env round rs c' e.1).pollFd with
          events := (doRead env round rs c' e.1).events ++
            (deliver env round later (doRead env round rs c' e.1).client
              (doRead env round rs c' e.1).pollFd).events } := by
    intro st hst hr hs ha
    rw [doRead_given_up hst.2, deliver_served (by rw [hst.1]; exact hr)] at ha
    exact hs (hst.1.symm.trans ha.1)
  rw [List.length_append]
  rcases Nat.lt_or_ge maxRequestSize (b.length + (received rs).length) with hover | hfits
  · have hst := recvLoop_too_long h' hpeer hblen hover
    refine ⟨fun ha => absurd ha (hgiven _ hst (by decide) (by decide)), fun hc => ?_⟩
    omega
  by_cases heof : .eof ∈ rs
  · have hst := recvLoop_eof h' hpeer hfits heof
    exact ⟨fun ha => absurd ha (hgiven _ hst (by decide) (by decide)), fun hc => absurd heof hc.1⟩
  refine ⟨fun _ => ⟨heof, hfits⟩, fun _ => ?_⟩
  have hall : ∀ a ∈ rs, Calm a := by
    intro a ha
    rcases hpeer a ha with h | h
    · exact h
    · exact absurd (h ▸ ha) heof
  obtain ⟨c₁, h1, -, hyes⟩ := doRead_calm env round e.1 h' hall hfits
  have hlen := findSub_cstr_le_length (by decide) hk
  rw [hyes k hk, deliver_served (serve_not_reading _ _ _ _ _), List.append_nil, Answered, outcomeOf,
    strnstr_length, hk]
  exact ⟨rfl, h1.staged (List.prefix_refl _) hlen⟩

def requestThen (tail : List RecvResult) : List RecvResult :=
  .data ⟨ascii "GET / HTTP/1.0\r\n\r\n", by decide, by decide⟩ true :: tail

theorem answered_iff_pipelined :
    let rs := requestThen [.data ⟨ascii "GET", by decide, by decide⟩ true]
    let e := freshEntry 7 [] []
    Answered emptyEnv 0 e (received rs) (deliver emptyEnv 0 [rs, [.eof]] e.2 e.1) := by
  intro rs e
  have hpeer : ∀ a ∈ rs, FromPeer a := by simp [rs, requestThen, FromPeer, Calm]
  have hiff := answered_iff emptyEnv 0 7 [] [] [] rs [[.eof]] (by simp) hpeer 14 (by decide +kernel)
    (by decide +kernel) (by decide)
  exact hiff.mpr ⟨by simp [rs, requestThen], by decide +kernel⟩

theorem half_closed_request_dropped :
    let e := freshEntry 7 [] []
    let s := received (requestThen [.eof])
    Answered emptyEnv 0 e s (deliver emptyEnv 0 [requestThen [], [.eof]] e.2 e.1) ∧
      (deliver emptyEnv 0 [requestThen [.eof]] e.2 e.1).client.state = .closing ∧
      ¬ Answered emptyEnv 0 e s (deliver emptyEnv 0 [requestThen [.eof]] e.2 e.1) := by
  decide +kernel

end SimpleServer
