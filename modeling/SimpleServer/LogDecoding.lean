import SimpleServer.BuildOutcomes
import SimpleServer.Lib.Fields
import SimpleServer.RequestLog

/-!
# Reading the log back

A line of the log is an address, a time, the request line between quotes, a
status and a size. The request line is written before anything checks it and
ends only at a CR LF, so it may hold a bare line feed, and then a request leaves
more than one line; it may hold quotes, which a reader that looks for the next
quote takes for the end of the field. The size goes through an `int`. Apart from
that the log of every run reads back as what was processed.
-/

namespace SimpleServer

open CString FileTree SlotArray Fields

structure LogRecord where
  address : Bytes
  time : Bytes
  request : Bytes
  status : Bytes
  size : Bytes
  deriving DecidableEq, Repr

/-- Which quote ends the quoted field: the next one, or the last of the line. -/
inductive Closing where
  | next
  | last
  deriving DecidableEq, Repr

def Closing.cut : Closing → Bytes → Option (Bytes × Bytes)
  | .next => Fields.cut 34
  | .last => cutLast 34

def readLine (closing : Closing) (line : Bytes) : Option LogRecord := do
  let (head, quoted) ← Fields.cut 34 line
  let (stamp, gap) ← cutLast 32 head
  let (address, time) ← cutLast 32 stamp
  let (request, rest) ← closing.cut quoted
  let (gap', result) ← Fields.cut 32 rest
  let (status, size) ← Fields.cut 32 result
  if gap = [] ∧ gap' = [] then some ⟨address, time, request, status, size⟩ else none

def readLog (closing : Closing) (log : Bytes) : Option (List LogRecord) := do
  let ls ← lines 10 log
  ls.mapM (readLine closing)

/-- The bytes that `do_logging` has written. -/
def logBytes (trace : List Event) : Bytes := (trace.filterMap Event.logged).flatten

def statusCode (out : Bytes) : Bytes := (out.drop 9).take 3

/-- The record says what happened to the request. -/
structure Recounts (record : LogRecord) (q : Processed) : Prop where
  address : record.address = q.client.clientAddr
  time : record.time = q.env.timeReceived.text
  request : record.request = requestLine q.buf q.client.headerLen
  status : ∀ out, q.done.outBuf = some out → record.status = statusCode out
  size : record.size = decimal q.done.bodyLen

def Decodes (closing : Closing) (trace : List Event) (qs : List Processed) : Prop :=
  ∃ records, readLog closing (logBytes trace) = some records ∧ List.Forall₂ Recounts records qs

/-- The request can be logged: its line is one line and, for a reader that looks
for the next quote, has no quote in it, and the size of its body is an `int`. -/
structure Processed.Plain (closing : Closing) (q : Processed) : Prop where
  oneLine : 10 ∉ requestLine q.buf q.client.headerLen
  unquoted : closing = .next → 34 ∉ requestLine q.buf q.client.headerLen
  small : q.done.bodyLen < 2 ^ 31

section Reader

variable {closing : Closing} {line addr time request status size : Bytes} {record : LogRecord}

theorem readLine_written (haddr : 34 ∉ addr) (htime : 32 ∉ time ∧ 34 ∉ time)
    (hrequest : closing = .next → 34 ∉ request) (hstatus : 32 ∉ status ∧ 34 ∉ status)
    (hsize : 34 ∉ size) :
    readLine closing ((addr ++ 32 :: time ++ [32]) ++ 34 ::
      (request ++ 34 :: 32 :: (status ++ 32 :: size))) =
        some ⟨addr, time, request, status, size⟩ := by
  have hhead : 34 ∉ addr ++ 32 :: time ++ [32] := by simp [haddr, htime.2]
  have hrest : 34 ∉ 32 :: (status ++ 32 :: size) := by simp [hstatus.2, hsize]
  have hgap : cutLast 32 (addr ++ 32 :: time ++ [32]) = some (addr ++ 32 :: time, []) :=
    cutLast_append List.not_mem_nil
  have hstamp : cutLast 32 (addr ++ 32 :: time) = some (addr, time) := cutLast_append htime.1
  have hquoted : closing.cut (request ++ 34 :: 32 :: (status ++ 32 :: size)) =
      some (request, 32 :: (status ++ 32 :: size)) := by
    cases closing with
    | next => exact cut_append (hrequest rfl)
    | last => exact cutLast_append hrest
  have hspace : Fields.cut 32 (32 :: (status ++ 32 :: size)) = some ([], status ++ 32 :: size) :=
    cut_append List.not_mem_nil
  simp only [readLine, cut_append hhead, hgap, hstamp, hquoted, hspace, cut_append hstatus.1,
    Option.bind_eq_bind, Option.bind_some, and_self, if_true]

theorem readLine_next_unquoted (h : readLine .next line = some record) : 34 ∉ record.request := by
  simp only [readLine, Option.bind_eq_bind, Option.bind_eq_some_iff] at h
  obtain ⟨_, _, _, _, _, _, ⟨request, rest⟩, hcut, _, _, _, _, h⟩ := h
  split_ifs at h
  cases h
  exact (cut_eq_some.mp hcut).2

end Reader

section Digits

theorem decimalInt_chars {n : ℕ} {b : Byte} (h : b ∈ decimalInt n) :
    b = 45 ∨ 48 ≤ b.toNat ∧ b.toNat ≤ 57 := by
  simp only [decimalInt] at h
  split_ifs at h
  · exact Or.inr (decimal_digit h)
  · rcases List.mem_append.mp h with h | h
    · exact Or.inl (List.mem_singleton.mp h)
    · exact Or.inr (decimal_digit h)

theorem decimalInt_plain (n : ℕ) : 10 ∉ decimalInt n ∧ 34 ∉ decimalInt n := by
  constructor
  · intro h
    exact absurd (decimalInt_chars h) (by decide)
  · intro h
    exact absurd (decimalInt_chars h) (by decide)

theorem respValToStatusString_plain (r : ClientResponse) : 10 ∉ respValToStatusString r ∧
    32 ∉ respValToStatusString r ∧ 34 ∉ respValToStatusString r := by
  cases r <;> decide

theorem decimalInt_eq_iff (n : ℕ) : decimalInt n = decimal n ↔ n < 2 ^ 31 := by
  have hm : n % 2 ^ 32 ≤ n := Nat.mod_le _ _
  simp only [decimalInt]
  split_ifs with hlow
  · rw [decimal_injective.eq_iff]
    omega
  · constructor
    · intro h
      have hminus : (45 : Byte) ∈ decimal n := by
        rw [← h]
        exact List.mem_append_left _ (List.mem_singleton.mpr rfl)
      exact absurd (decimal_digit hminus).1 (by decide)
    · intro h
      omega

end Digits

/-- What is known of every request that a run logs. -/
structure Processed.Sound (q : Processed) : Prop where
  addr : 10 ∉ q.client.clientAddr ∧ 34 ∉ q.client.clientAddr
  time : 10 ∉ q.env.timeReceived.text ∧ 32 ∉ q.env.timeReceived.text ∧
    34 ∉ q.env.timeReceived.text
  answer : Staged (respond q.env q.round q.client q.buf).client ∨
    (respond q.env q.round q.client q.buf).client.outBuf = none

def Processed.logLine (q : Processed) : Bytes :=
  (q.client.clientAddr ++ 32 :: q.env.timeReceived.text ++ [32]) ++ 34 ::
    (requestLine q.buf q.client.headerLen ++ 34 :: 32 ::
      (respValToStatusString q.done.respVal ++ 32 :: decimalInt q.done.bodyLen))

section Lines

variable {closing : Closing} {q : Processed} {qs : List Processed}

theorem logText_logLine (q : Processed) : q.logText = q.logLine ++ [10] := by
  have h1 : ascii " " = [32] := rfl
  have h2 : ascii " \"" = [32, 34] := rfl
  have h3 : ascii "\" " = [34, 32] := rfl
  have h4 : ascii "\n" = [10] := rfl
  simp only [Processed.logText, logText, Processed.logLine, h1, h2, h3, h4, List.append_assoc,
    List.cons_append, List.nil_append]

theorem flatten_logText (qs : List Processed) :
    (qs.map Processed.logText).flatten = terminated 10 (qs.map Processed.logLine) := by
  have htext : Processed.logText = fun q => q.logLine ++ [10] := funext logText_logLine
  rw [terminated, List.flatMap_map, List.flatMap_def, htext]

theorem logLine_oneLine (hq : q.Sound) (h : 10 ∉ requestLine q.buf q.client.headerLen) :
    10 ∉ q.logLine := by
  have hstatus := (respValToStatusString_plain q.done.respVal).1
  have hsize := (decimalInt_plain q.done.bodyLen).1
  simp [Processed.logLine, hq.addr.1, hq.time.1, h, hstatus, hsize]

theorem requestLine_logLine : requestLine q.buf q.client.headerLen ⊆ q.logLine := by
  intro b hb
  simp [Processed.logLine, hb]

theorem readLine_logLine (hq : q.Sound)
    (h : closing = .next → 34 ∉ requestLine q.buf q.client.headerLen) :
    readLine closing q.logLine = some ⟨q.client.clientAddr, q.env.timeReceived.text,
      requestLine q.buf q.client.headerLen, respValToStatusString q.done.respVal,
      decimalInt q.done.bodyLen⟩ :=
  readLine_written hq.addr.2 hq.time.2 h (respValToStatusString_plain _).2 (decimalInt_plain _).2

theorem status_staged (hq : q.Sound) {out : Bytes} (h : q.done.outBuf = some out) :
    respValToStatusString q.done.respVal = statusCode out := by
  have hst : Staged (respond q.env q.round q.client q.buf).client := by
    apply hq.answer.resolve_right
    intro hn
    rw [show q.done.outBuf = none from hn] at h
    cases h
  obtain ⟨out', ho, t, ht⟩ := hst.response
  have he : out' = out := Option.some.inj (ho.symm.trans h)
  have hlen : (ascii "HTTP/1.0 ").length = 9 := rfl
  rw [statusCode, ← he, ← ht, List.append_assoc, ← hlen, List.drop_left,
    ← respValToStatusString_length (respond q.env q.round q.client q.buf).client.respVal,
    List.take_left]
  rfl

theorem readLine_recounts_iff (hq : q.Sound) :
    (∃ record, readLine closing q.logLine = some record ∧ Recounts record q) ↔
      (closing = .next → 34 ∉ requestLine q.buf q.client.headerLen) ∧
        q.done.bodyLen < 2 ^ 31 := by
  constructor
  · intro h
    obtain ⟨record, hread, hrec⟩ := h
    have hquote : closing = .next → 34 ∉ requestLine q.buf q.client.headerLen := by
      intro hnext
      subst hnext
      rw [← hrec.request]
      exact readLine_next_unquoted hread
    refine ⟨hquote, ?_⟩
    rw [readLine_logLine hq hquote, Option.some.injEq] at hread
    rw [← decimalInt_eq_iff, ← hrec.size, ← hread]
  · intro h
    obtain ⟨hquote, hsize⟩ := h
    exact ⟨_, readLine_logLine hq hquote, rfl, rfl, rfl, fun _ => status_staged hq,
      (decimalInt_eq_iff _).mpr hsize⟩

theorem readLog_recounts_iff (hqs : ∀ q ∈ qs, q.Sound) :
    (∃ records, readLog closing (terminated 10 (qs.map Processed.logLine)) = some records ∧
      List.Forall₂ Recounts records qs) ↔ ∀ q ∈ qs, q.Plain closing := by
  constructor
  · intro h
    obtain ⟨records, hread, hrec⟩ := h
    simp only [readLog, Option.bind_eq_bind, Option.bind_eq_some_iff] at hread
    obtain ⟨ls, hls, hread⟩ := hread
    rw [mapM_eq_some] at hread
    have hlen : ls.length = (qs.map Processed.logLine).length := by
      rw [hread.length_eq, hrec.length_eq, List.length_map]
    have hone := lines_plain hls hlen
    rw [lines_terminated hone, Option.some.injEq] at hls
    rw [← hls, List.forall₂_map_left_iff] at hread
    intro q hq
    obtain ⟨hquote, hsize⟩ := (readLine_recounts_iff (hqs q hq)).mp (forall₂_both hread hrec q hq)
    refine ⟨fun hb => ?_, hquote, hsize⟩
    exact hone _ (List.mem_map_of_mem hq) (requestLine_logLine hb)
  · intro hplain
    have hread : ∀ q ∈ qs, ∃ record, readLine closing q.logLine = some record ∧ Recounts record q :=
      fun q hq => (readLine_recounts_iff (hqs q hq)).mpr
        ⟨(hplain q hq).unquoted, (hplain q hq).small⟩
    have hone : ∀ l ∈ qs.map Processed.logLine, 10 ∉ l := by
      intro l hl
      obtain ⟨q, hq, rfl⟩ := List.mem_map.mp hl
      exact logLine_oneLine (hqs q hq) (hplain q hq).oneLine
    obtain ⟨records, hf⟩ := forall₂_of_exists hread
    refine ⟨records, ?_, ?_⟩
    · simp only [readLog, lines_terminated hone, Option.bind_eq_bind, Option.bind_some]
      rw [mapM_eq_some, List.forall₂_map_left_iff]
      exact hf.imp fun _ _ h => h.1
    · exact (hf.imp fun _ _ h => h.2).flip

end Lines

section Answers

variable {env : Env} {round : ℕ} {c : Client} {rp : ResolvedPath} {req : Request} {buf : Bytes}

theorem buildErrorResponse_answer (h : c.respVal.isError = true) (hc : c.outBuf = none) :
    Staged (buildErrorResponse env round c req).client ∨
      (buildErrorResponse env round c req).client.outBuf = none := by
  by_cases hs : env.errorStream = true
  · exact Or.inl (buildErrorResponse_staged h hs)
  · apply Or.inr
    apply (buildErrorResponse_unstaged hc).resolve_left
    rw [buildErrorResponse_ret_iff h]
    exact hs

theorem buildOkayResponse_answer (hp : rp.pathType ≠ .unknown) (hc : c.outBuf = none) :
    Staged (buildOkayResponse env round c rp req).client ∨
      (buildOkayResponse env round c rp req).client.outBuf = none := by
  have hv : BuildVerdict (buildByType env round { c with respVal := .resp200 } rp req) :=
    buildByType_verdict rfl hp
  have hnone : (buildByType env round { c with respVal := .resp200 } rp req).ret = 0 ∨
      (buildByType env round { c with respVal := .resp200 } rp req).client.outBuf = none :=
    buildByType_unstaged hc
  simp only [buildOkayResponse]
  split
  · rename_i hr
    apply buildErrorResponse_answer (resetForError_isError hv hr)
    apply hnone.resolve_left
    intro h0
    rw [h0] at hr
    cases hr
  · rename_i hr
    exact Or.inl (hv.staged hr)

theorem respond_answer (hc : c.outBuf = none) : Staged (respond env round c buf).client ∨
    (respond env round c buf).client.outBuf = none := by
  have hv : ResolveVerdict _ (resolved env round c buf) := resolvePath_verdict env round _ _ _
  have hf : ResolveFrame _ (resolved env round c buf).client := resolvePath_frame env round _ _ _
  have hnone : (resolved env round c buf).client.outBuf = none := by
    rw [hf.eq]
    exact hc
  by_cases hp : (parsed env c buf).ret = 0
  · by_cases hr : (resolved env round c buf).ret = 0
    · rw [respond_found hp hr]
      exact buildOkayResponse_answer (hv.decided hr) hnone
    · rw [respond_unresolved hp hr]
      exact buildErrorResponse_answer (hv.failed hr) hnone
  · rw [respond_refused hp]
    exact buildErrorResponse_answer (parseRequest_error hp) hc

end Answers

/-- What the C library writes into a log line: `inet_ntop` hexadecimal digits,
colons and dots, and `strftime` the digits and letters of its format. -/
structure PlainTexts (r : Round) : Prop where
  addr : ∀ i a t, .conn a ∈ r.accepts i → a.addr = some t → t.text ⊆ ascii "0123456789abcdef:."
  time : ∀ fd, (r.env fd).timeReceived.text ⊆ ascii "0123456789-:TZ"

/-- What holds of every client between two poll rounds. -/
structure Traceable (e : Entry) : Prop where
  loggable : Loggable e
  unstaged : e.2.state = .reading → e.2.outBuf = none
  addr : 10 ∉ e.2.clientAddr ∧ 34 ∉ e.2.clientAddr

section Runs

variable {r : Round} {round : ℕ} {e : Entry} {a : Accepted} {s s' : Server}
  {new order : List Entry} {answers : List PollAnswer}

theorem mem_registered {rs : List AcceptResult} (h : a ∈ registered rs) : .conn a ∈ rs := by
  induction rs with
  | nil => cases h
  | cons x rs ih =>
    cases x with
    | fail e =>
      simp only [registered] at h
      split_ifs at h
      · exact List.mem_cons_of_mem _ (ih h)
      · cases h
    | conn b =>
      simp only [registered] at h
      split_ifs at h
      · exact List.mem_cons_of_mem _ (ih h)
      · rcases List.mem_cons.mp h with rfl | h
        · exact List.mem_cons_self
        · exact List.mem_cons_of_mem _ (ih h)

theorem mem_registeredFrom (h : a ∈ registeredFrom r s 0) : ∃ i, .conn a ∈ r.accepts i := by
  obtain ⟨i, -, ha⟩ := List.mem_flatMap.mp h
  split_ifs at ha
  · exact ⟨i, mem_registered ha⟩
  · cases ha

theorem addrText_plain (hr : PlainTexts r) (h : a ∈ registeredFrom r s 0) :
    10 ∉ addrText a.addr ∧ 34 ∉ addrText a.addr := by
  obtain ⟨i, hi⟩ := mem_registeredFrom h
  cases ha : a.addr with
  | none => decide
  | some t =>
    have hsub := hr.addr i a t hi ha
    exact ⟨fun hb => absurd (hsub hb) (by decide), fun hb => absurd (hsub hb) (by decide)⟩

theorem fresh_traceable (hr : PlainTexts r) (h : a ∈ registeredFrom r s 0) (hf : IsFresh a e) :
    Traceable e := by
  obtain ⟨old, rfl⟩ := hf
  exact ⟨⟨⟨a.addr, rfl⟩, Nat.zero_le _⟩, fun _ => rfl, addrText_plain hr h⟩

theorem readEntry_unstaged (h : e.2.state = .reading → e.2.outBuf = none)
    (hst : (readEntry r round e).client.state = .reading) :
    (readEntry r round e).client.outBuf = none := by
  by_cases hin : e.1.revents &&& pollIn ≠ 0 ∧ e.2.state = .reading
  · have hout := congrArg Client.outBuf (recvLoop_frame e.2 (r.recvs e.2.fd)).eq
    rw [readEntry, if_pos hin, doRead_requestIn] at hst ⊢
    cases hreq : requestIn (r.recvs e.2.fd) e.2 with
    | none => exact hout.trans (h hin.2)
    | some q =>
      rw [hreq] at hst
      cases hst
  · rw [readEntry, if_neg hin] at hst ⊢
    exact h hst

theorem readEntry_traceable (h : Traceable e) :
    Traceable ((readEntry r round e).pollFd, (readEntry r round e).client) := by
  refine ⟨readEntry_loggable h.loggable, readEntry_unstaged h.unstaged, ?_⟩
  simp only [readEntry_addr]
  exact h.addr

theorem round_traceable (he : RoundEffect r s new order s') (hr : PlainTexts r)
    (hs : Entrywise Traceable s) : Entrywise Traceable s' := by
  refine he.entrywise hs (fun a ha e hf => fresh_traceable hr ha hf)
    (fun e m hq => ⟨hq.loggable, hq.unstaged, hq.addr⟩) ?_
  intro e _ v e' hq hv hk
  rcases visitEntry_kept hv hk with ⟨rfl, -⟩ | ⟨-, -, rfl⟩
  · exact hq
  · exact readEntry_traceable hq

theorem processedBy_sound {q : Processed} (hr : PlainTexts r) (he : Traceable e)
    (h : processedBy r round e = some q) : q.Sound := by
  simp only [processedBy] at h
  split_ifs at h with hin
  obtain ⟨⟨c, buf⟩, hreq, rfl⟩ := Option.map_eq_some_iff.mp h
  obtain ⟨haddr, hout⟩ := requestIn_frame hreq
  have htime := hr.time e.2.fd
  refine ⟨haddr ▸ he.addr, ?_, respond_answer (hout.trans (he.unstaged hin.2.2))⟩
  exact ⟨fun hb => absurd (htime hb) (by decide), fun hb => absurd (htime hb) (by decide),
    fun hb => absurd (htime hb) (by decide)⟩

theorem round_sound (he : RoundEffect r s new order s') (hr : PlainTexts r)
    (hs : Entrywise Traceable s) :
    ∀ q ∈ order.filterMap (processedBy r s.round), q.Sound := by
  intro q hq
  obtain ⟨e, ho, hp⟩ := List.mem_filterMap.mp hq
  rcases (mem_order he).mp ho with h | h
  · obtain ⟨e₀, hm, m, hem⟩ := polled_entry h
    have ht := hs.all e₀ hm
    have hte : Traceable e := by
      rw [hem]
      exact ⟨ht.loggable, ht.unstaged, ht.addr⟩
    exact processedBy_sound hr hte hp
  · rw [processedBy_idle (fresh_revents he.fresh e h)] at hp
    cases hp

theorem processedRun_sound (hs : Entrywise Traceable s)
    (hr : ∀ r, .ready r ∈ answers → PlainTexts r) : ∀ q ∈ processedRun s answers, q.Sound := by
  induction answers generalizing s with
  | nil => simp [processedRun]
  | cons a answers ih =>
    cases hstep : s.step a with
    | error x => simp [processedRun, hstep]
    | ok s' =>
      have hrest := fun r h => hr r (List.mem_cons_of_mem a h)
      intro q hq
      simp only [processedRun, hstep, List.mem_append] at hq
      cases a with
      | eintr =>
        cases hstep
        exact ih hs hrest q (hq.resolve_left List.not_mem_nil)
      | fatal => cases hstep
      | ready r =>
        obtain ⟨t, new, order, rfl, he⟩ := pollRound_ok hs.pos hs.least hstep
        have hplain := hr r List.mem_cons_self
        have ht : Entrywise Traceable { t with round := s.round + 1 } := by
          have ht := round_traceable he hplain hs
          exact ⟨ht.pos, ht.least, ht.all⟩
        rcases hq with hq | hq
        · change q ∈ (examined (t.trace.drop s.trace.length)).filterMap _ at hq
          rw [round_processed he] at hq
          exact round_sound he hplain hs q hq
        · exact ih ht hrest q hq

end Runs

/-- The log of a run reads back as the requests it processed, one line each and
in their order, exactly if each of them can be logged. -/
theorem log_decodes_iff {pfds : ℕ → PollFd} {clients : ℕ → Client} {v4 v6 : Option ℕ}
    {s₀ s : Server} {answers : List PollAnswer} (h0 : setup pfds clients v4 v6 = .ok s₀)
    (h : eventLoop s₀ answers = .ok s)
    (hlog : ∀ r, .ready r ∈ answers → ∀ fd, (r.env fd).flags.logging = true)
    (htexts : ∀ r, .ready r ∈ answers → PlainTexts r) (closing : Closing) :
    Decodes closing s.trace (processedRun s₀ answers) ↔
      ∀ q ∈ processedRun s₀ answers, q.Plain closing := by
  have hlogged := eventLoop_logged (setup_entrywise h0) hlog h
  have hstart : s₀.trace = [] := setup_trace h0
  rw [hstart, List.filterMap_nil, List.nil_append] at hlogged
  rw [Decodes, logBytes, hlogged, flatten_logText]
  exact readLog_recounts_iff (processedRun_sound (setup_entrywise h0) htexts)

instance (closing : Closing) (q : Processed) : Decidable (q.Plain closing) :=
  decidable_of_iff (10 ∉ requestLine q.buf q.client.headerLen ∧
    (closing = .next → 34 ∉ requestLine q.buf q.client.headerLen) ∧ q.done.bodyLen < 2 ^ 31)
    ⟨fun h => ⟨h.1, h.2.1, h.2.2⟩, fun h => ⟨h.oneLine, h.unquoted, h.small⟩⟩

def loggedRun (env : Env) (rs : List RecvResult) : List PollAnswer :=
  [.ready { acceptRound [] with
      accepts := fun _ =>
        [.conn ⟨7, true, ⟨true, true⟩, some ⟨ascii "10.0.0.1", by decide, by decide⟩⟩]
      env := fun _ => env },
    .ready (readRound env rs)]

section Runs

variable {env : Env} {rs : List RecvResult}

theorem loggedRun_logging (h : env.flags.logging = true) :
    ∀ r, .ready r ∈ loggedRun env rs → ∀ fd, (r.env fd).flags.logging = true := by
  intro r hr fd
  simp only [loggedRun, List.mem_cons, List.not_mem_nil, or_false, PollAnswer.ready.injEq] at hr
  rcases hr with rfl | rfl
  · exact h
  · exact h

theorem loggedRun_texts (h : env.timeReceived.text ⊆ ascii "0123456789-:TZ") :
    ∀ r, .ready r ∈ loggedRun env rs → PlainTexts r := by
  intro r hr
  simp only [loggedRun, List.mem_cons, List.not_mem_nil, or_false, PollAnswer.ready.injEq] at hr
  rcases hr with rfl | rfl
  · refine ⟨?_, fun _ => h⟩
    intro i a t ha ht
    simp only [List.mem_singleton, AcceptResult.conn.injEq] at ha
    subst ha
    cases ht
    decide
  · exact ⟨fun i a t ha => absurd ha List.not_mem_nil, fun _ => h⟩

end Runs

theorem log_decodes_iff_root :
    ∃ s, eventLoop startServer (loggedRun loggingEnv getRoot) = .ok s ∧
      (processedRun startServer (loggedRun loggingEnv getRoot)).length = 1 ∧
      Decodes .next s.trace (processedRun startServer (loggedRun loggingEnv getRoot)) := by
  obtain ⟨s, hs, -⟩ := Run.arrives_iff.mp (show Run.arrives (fun _ => true)
    (eventLoop startServer (loggedRun loggingEnv getRoot)) = true by decide +kernel)
  have hplain : ∀ q ∈ processedRun startServer (loggedRun loggingEnv getRoot), q.Plain .next := by
    decide +kernel
  have htime : loggingEnv.timeReceived.text ⊆ ascii "0123456789-:TZ" := by decide +kernel
  exact ⟨s, hs, by decide +kernel, (log_decodes_iff setup_startServer hs (loggedRun_logging rfl)
    (loggedRun_texts htime) .next).mpr hplain⟩

theorem Decodes.sizes {closing : Closing} {trace : List Event} {qs : List Processed}
    (h : Decodes closing trace qs) :
    (readLog closing (logBytes trace)).map (fun records => records.map LogRecord.size) =
      some (qs.map fun q => decimal q.done.bodyLen) := by
  obtain ⟨records, hread, hrec⟩ := h
  rw [hread, Option.map_some, Option.some.injEq, ← List.forall₂_eq_eq_eq,
    List.forall₂_map_left_iff, List.forall₂_map_right_iff]
  exact hrec.imp fun _ _ h => h.size

def forgedRequest : List RecvResult :=
  [.data ⟨ascii "x\" 200 0\n9.9.9.9 2025-01-01T00:00:00Z \"y" ++ headerEnd,
    by decide +kernel, by decide +kernel⟩ true]

def largeFileEnv : Env :=
  { loggingEnv with
    fopen := fun site _ => match site with
      | .target => .ok [ascii "a"]
      | _ => .error .ENOENT
    fstat := fun _ _ => some ⟨false, 2 ^ 31, 0⟩
    gmtime := fun _ => some emptyEnv.timeReceived }

def headFile : List RecvResult :=
  [.data ⟨ascii "HEAD /a HTTP/1.0" ++ headerEnd, by decide, by decide⟩ true]

theorem closing_mem (closing : Closing) : closing ∈ [Closing.next, .last] := by
  cases closing <;> decide

/-- One request leaves two records, the second with an address of its choice,
and a size of two gibibytes is logged as a negative one. -/
theorem log_forged_and_wrapped :
    let forged := loggedRun loggingEnv forgedRequest
    let large := loggedRun largeFileEnv headFile
    (∃ s, eventLoop startServer forged = .ok s ∧ (processedRun startServer forged).length = 1 ∧
      ∀ closing, (readLog closing (logBytes s.trace)).map (fun ls => ls.map LogRecord.address) =
          some [ascii "10.0.0.1", ascii "9.9.9.9"] ∧
        ¬ Decodes closing s.trace (processedRun startServer forged)) ∧
    ∃ s, eventLoop startServer large = .ok s ∧
      ∀ closing, (readLog closing (logBytes s.trace)).map (fun ls => ls.map LogRecord.size) =
          some [ascii "-2147483648"] ∧
        ¬ Decodes closing s.trace (processedRun startServer large) := by
  intro forged large
  obtain ⟨s, hs, ht⟩ := Run.arrives_iff.mp (show Run.arrives
    (fun s => decide (∀ closing ∈ [Closing.next, .last],
      (readLog closing (logBytes s.trace)).map (fun ls => ls.map LogRecord.address) =
        some [ascii "10.0.0.1", ascii "9.9.9.9"]))
    (eventLoop startServer forged) = true by decide +kernel)
  obtain ⟨s', hs', ht'⟩ := Run.arrives_iff.mp (show Run.arrives
    (fun s => decide (∀ closing ∈ [Closing.next, .last],
      (readLog closing (logBytes s.trace)).map (fun ls => ls.map LogRecord.size) =
        some [ascii "-2147483648"]))
    (eventLoop startServer large) = true by decide +kernel)
  have hone : (processedRun startServer forged).length = 1 := by decide +kernel
  have hlarge : (processedRun startServer large).map (fun q => decimal q.done.bodyLen) =
      [ascii "2147483648"] := by decide +kernel
  refine ⟨⟨s, hs, hone, fun closing => ?_⟩, s', hs', fun closing => ?_⟩
  · have haddrs := of_decide_eq_true ht closing (closing_mem closing)
    refine ⟨haddrs, ?_⟩
    intro hd
    obtain ⟨records, hread, hrec⟩ := hd
    rw [hread, Option.map_some, Option.some.injEq] at haddrs
    have hlen := congrArg List.length haddrs
    rw [List.length_map, hrec.length_eq, hone] at hlen
    cases hlen
  · have hsizes := of_decide_eq_true ht' closing (closing_mem closing)
    refine ⟨hsizes, ?_⟩
    intro hd
    rw [hd.sizes, hlarge, Option.some.injEq] at hsizes
    exact absurd hsizes (by decide +kernel)

end SimpleServer
