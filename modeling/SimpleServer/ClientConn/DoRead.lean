import SimpleServer.Response.BuildResponse

/-!
# `append` and `do_read`

One call of `do_read` consumes a list of `recv` answers; a list that runs out
is a drained socket, which answers `EAGAIN`. Each chunk carries the outcome of
the `realloc` that `append` may need for it. `recvLoop` tells with a Boolean
whether the loop was left by `break` (and the buffer is then searched) or by
`return`: a full buffer and an end of file return, a fatal error breaks.
-/

namespace SimpleServer

open CString FileTree

structure Chunk where
  bytes : Bytes
  pos : 0 < bytes.length
  short : bytes.length ≤ tempBuffer

inductive RecvResult where
  | data (chunk : Chunk) (realloc : Bool)
  | eof
  | fail (e : Errno)

/-- The doubling loop of `append`; the fuel is the size asked for. -/
def growCapacity (need : ℕ) : ℕ → ℕ → ℕ
  | 0, cap => cap
  | fuel + 1, cap => if cap < need then growCapacity need fuel (cap * 2) else cap

def store (c : Client) (data : Bytes) : Client :=
  { c with
    inBuf := some ((c.inBuf.getD []).take c.inputLength ++ data)
    inputLength := c.inputLength + data.length }

def append (c : Client) (data : Bytes) (realloc : Bool) : Client :=
  if maxRequestSize < c.inputLength + data.length then
    { c with respVal := .resp414, state := .processing }
  else if c.inputCapacity < c.inputLength + data.length then
    let newCap := if c.inputCapacity ≠ 0 then c.inputCapacity * 2 else 1024
    let newCap := growCapacity (c.inputLength + data.length) (c.inputLength + data.length) newCap
    if realloc = false then { c with state := .closing }
    else store { c with inputCapacity := newCap } data
  else store c data

def recvLoop (c : Client) : List RecvResult → Client × Bool
  | [] => (c, true)
  | .data chunk realloc :: rest =>
    let c := append c chunk.bytes realloc
    if c.state ≠ .reading then (c, false) else recvLoop c rest
  | .eof :: _ => ({ c with state := .closing }, false)
  | .fail e :: rest =>
    if e = .EAGAIN ∨ e = .EWOULDBLOCK then (c, true)
    else if e = .EINTR then recvLoop c rest
    else ({ c with state := .closing }, true)

structure Served where
  client : Client
  rp : ResolvedPath
  le : LogEntry
  events : List Event

/-- From the parser to the staged response, `header_len` being set. -/
def respond (env : Env) (round : ℕ) (c : Client) (buf : Bytes) : Served :=
  let le := if env.flags.logging then logAppend .zero (c.clientAddr ++ ascii " ") else .zero
  let p := parseRequest env.flags env.timeReceived buf c.headerLen .zero c.respVal le
  let c := { c with respVal := p.resp }
  if p.ret = 0 then
    let r := resolvePath env round c p.out .zero
    if r.ret = 0 then
      let b := buildOkayResponse env round r.client r.rp p.out
      ⟨b.client, r.rp, p.le, r.events ++ b.events⟩
    else
      let b := buildErrorResponse env round r.client p.out
      ⟨b.client, r.rp, p.le, r.events ++ b.events⟩
  else
    let b := buildErrorResponse env round c p.out
    ⟨b.client, .zero, p.le, b.events⟩

def logServed (flags : Flags) (s : Served) : List Event :=
  if flags.logging then
    doLogging (logAppend s.le (respValToStatusString s.client.respVal ++ ascii " " ++
      decimalInt s.client.bodyLen ++ ascii "\n"))
  else []

structure ReadOutcome where
  client : Client
  pollFd : PollFd
  events : List Event
  deriving DecidableEq, Repr

def serve (env : Env) (round : ℕ) (c : Client) (p : PollFd) (buf : Bytes) : ReadOutcome :=
  let s := respond env round c buf
  { client := { s.client with state := .sendingHeader }
    pollFd := { p with events := pollOut }
    events := s.events ++ logServed env.flags s ++ (closeResolvePathPtr s.rp).2 }

def doRead (env : Env) (round : ℕ) (rs : List RecvResult) (c : Client) (p : PollFd) :
    ReadOutcome :=
  let drained := recvLoop c rs
  let c := drained.1
  if drained.2 = false then ⟨c, p, []⟩
  else match c.inBuf with
    | none => ⟨c, p, []⟩
    | some buf =>
      if c.inputLength = 0 then ⟨c, p, []⟩
      else match strnstr buf headerEnd c.inputLength with
        | none => ⟨c, p, []⟩
        | some k => serve env round { c with headerLen := k + 4 } p buf

section Append

variable {c : Client} {data : Bytes} {realloc : Bool}

theorem append_over (h : maxRequestSize < c.inputLength + data.length) :
    append c data realloc = { c with respVal := .resp414, state := .processing } := if_pos h

theorem append_failed (h : ¬ maxRequestSize < c.inputLength + data.length)
    (hg : c.inputCapacity < c.inputLength + data.length ∧ realloc = false) :
    append c data realloc = { c with state := .closing } :=
  (if_neg h).trans ((if_pos hg.1).trans (if_pos hg.2))

theorem append_stored (h : ¬ maxRequestSize < c.inputLength + data.length)
    (hg : ¬ (c.inputCapacity < c.inputLength + data.length ∧ realloc = false)) :
    ∃ cap, append c data realloc = store { c with inputCapacity := cap } data := by
  by_cases hcap : c.inputCapacity < c.inputLength + data.length
  · have hr : realloc ≠ false := fun hr => hg ⟨hcap, hr⟩
    exact ⟨_, (if_neg h).trans ((if_pos hcap).trans (if_neg hr))⟩
  · exact ⟨c.inputCapacity, (if_neg h).trans (if_neg hcap)⟩

theorem append_length_le (hc : c.inputLength ≤ maxRequestSize) :
    (append c data realloc).inputLength ≤ maxRequestSize := by
  by_cases h : maxRequestSize < c.inputLength + data.length
  · rw [append_over h]
    exact hc
  by_cases hg : c.inputCapacity < c.inputLength + data.length ∧ realloc = false
  · rw [append_failed h hg]
    exact hc
  · obtain ⟨cap, hs⟩ := append_stored h hg
    rw [hs]
    exact Nat.le_of_not_lt h

end Append

/-- The only members of the client that the `recv` loop writes. -/
structure ReadFrame (c c' : Client) : Prop where
  eq : c' = { c with
    inBuf := c'.inBuf
    inputLength := c'.inputLength
    inputCapacity := c'.inputCapacity
    respVal := c'.respVal
    state := c'.state }

theorem ReadFrame.trans {c c' c'' : Client} (h : ReadFrame c c') (h' : ReadFrame c' c'') :
    ReadFrame c c'' := by
  constructor
  rw [h'.eq, h.eq]

theorem append_frame (c : Client) (data : Bytes) (realloc : Bool) :
    ReadFrame c (append c data realloc) := by
  simp only [append, store]
  split_ifs <;> exact ⟨rfl⟩

/-- What holds across `append` and a change of state holds across the loop. -/
theorem recvLoop_induct {P : Client → Prop} {c : Client} (rs : List RecvResult) (h0 : P c)
    (happend : ∀ c data realloc, P c → P (append c data realloc))
    (hstate : ∀ c st, P c → P { c with state := st }) : P (recvLoop c rs).1 := by
  induction rs generalizing c with
  | nil => exact h0
  | cons a rs ih =>
    cases a with
    | data chunk realloc =>
      have ha := happend c chunk.bytes realloc h0
      simp only [recvLoop]
      split_ifs
      · exact ha
      · exact ih ha
    | eof => exact hstate c _ h0
    | fail e =>
      simp only [recvLoop]
      split_ifs
      · exact h0
      · exact ih h0
      · exact hstate c _ h0

theorem recvLoop_frame (c : Client) (rs : List RecvResult) : ReadFrame c (recvLoop c rs).1 :=
  recvLoop_induct rs ⟨rfl⟩ (fun _ data realloc h => h.trans (append_frame _ data realloc))
    (fun _ _ h => h.trans ⟨rfl⟩)

theorem recvLoop_length_le {c : Client} (rs : List RecvResult)
    (h : c.inputLength ≤ maxRequestSize) : (recvLoop c rs).1.inputLength ≤ maxRequestSize :=
  recvLoop_induct (P := fun c => c.inputLength ≤ maxRequestSize) rs h
    (fun _ _ _ hc => append_length_le hc) (fun _ _ hc => hc)

end SimpleServer
