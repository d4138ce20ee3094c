import SimpleServer.ContentLength
import SimpleServer.Conversations
import SimpleServer.Lib.HttpMessage

/-!
# What a peer reads

Every response is written by one of four `fprintf` calls. Read back by a strict
reader of HTTP messages, what a peer has been sent when its connection ends is
nothing or one message: the status that was decided on, the fields of the
format and no others, and the rest as the body. Neither a target nor the output
of a script nor the text of a time can add a field.
-/

namespace SimpleServer

open CString FileTree SlotArray HeaderBlock HttpMessage

/-- Texts that stay in their line. -/
def OneLine (s : Bytes) : Prop := 13 ∉ s ∧ 10 ∉ s

instance (s : Bytes) : Decidable (OneLine s) := inferInstanceAs (Decidable (_ ∧ _))

/-- What the formats of the four headers leave open. -/
structure Head where
  code : Bytes
  reason : Bytes
  date : Bytes
  modTime : Option Bytes
  mime : Bytes
  len : ℕ

def Head.message (h : Head) (body : Bytes) : Message where
  version := ascii "HTTP/1.0"
  code := h.code
  reason := h.reason
  fields := (ascii "Date", h.date) :: (ascii "Server", serverVersion) ::
    ((h.modTime.map (Prod.mk (ascii "Last-Modified"))).toList ++
      [(ascii "Content-Type", h.mime), (ascii "Content-Length", decimal h.len),
        (ascii "Connection", ascii "close")])
  body := body

structure Head.Plain (h : Head) : Prop where
  code : 32 ∉ h.code ∧ OneLine h.code ∧ h.code.length = 3
  reason : OneLine h.reason
  date : OneLine h.date
  modTime : ∀ t, h.modTime = some t → OneLine t
  mime : OneLine h.mime

/-- The texts of the C library and of libmagic have no line ends, and a script
writes less than a `size_t` can count. -/
structure PlainEnv (env : Env) : Prop where
  now : OneLine env.timeReceived.text
  times : ∀ t m, env.gmtime t = some m → OneLine m.text
  magic : ∀ node m, env.magicDescriptor node = some m → OneLine m
  output : OutputFits env

section Heads

variable {h : Head} {header body : Bytes} {req : Request}

theorem decimal_oneLine (n : ℕ) : OneLine (decimal n) := by
  have hdigit : ∀ b : Byte, b.toNat < 48 → b ∉ decimal n := by
    intro b hb hm
    exact absurd (decimal_digit hm).1 (by omega)
  exact ⟨hdigit 13 (by decide), hdigit 10 (by decide)⟩

theorem mem_fields {f : Bytes × Bytes} (hf : f ∈ (h.message body).fields) :
    f = (ascii "Date", h.date) ∨ f = (ascii "Server", serverVersion) ∨
      (∃ t, h.modTime = some t ∧ f = (ascii "Last-Modified", t)) ∨
      f = (ascii "Content-Type", h.mime) ∨ f = (ascii "Content-Length", decimal h.len) ∨
      f = (ascii "Connection", ascii "close") := by
  simp only [Head.message, List.mem_cons, List.mem_append, Option.mem_toList,
    Option.map_eq_some_iff, List.not_mem_nil, or_false] at hf
  rcases hf with hf | hf | ⟨t, ht, hf⟩ | hf
  · exact Or.inl hf
  · exact Or.inr (Or.inl hf)
  · exact Or.inr (Or.inr (Or.inl ⟨t, ht, hf.symm⟩))
  · exact Or.inr (Or.inr (Or.inr hf))

theorem Head.Plain.field (hp : h.Plain) {f : Bytes × Bytes} (hf : f ∈ (h.message body).fields) :
    (58 ∉ f.1 ∧ OneLine f.1) ∧ OneLine f.2 := by
  have hnames : ∀ name ∈ [ascii "Date", ascii "Server", ascii "Last-Modified",
      ascii "Content-Type", ascii "Content-Length", ascii "Connection"],
      58 ∉ name ∧ OneLine name := by decide
  rcases mem_fields hf with rfl | rfl | ⟨t, ht, rfl⟩ | rfl | rfl | rfl
  · exact ⟨hnames _ (by simp), hp.date⟩
  · exact ⟨hnames _ (by simp), by decide⟩
  · exact ⟨hnames _ (by simp), hp.modTime t ht⟩
  · exact ⟨hnames _ (by simp), hp.mime⟩
  · exact ⟨hnames _ (by simp), decimal_oneLine _⟩
  · exact ⟨hnames _ (by simp), by decide⟩

theorem Head.Plain.message (hp : h.Plain) (body : Bytes) : (h.message body).Plain where
  version := by
    change 32 ∉ ascii "HTTP/1.0" ∧ 13 ∉ ascii "HTTP/1.0" ∧ 10 ∉ ascii "HTTP/1.0"
    decide
  code := ⟨hp.code.1, hp.code.2.1⟩
  reason := hp.reason
  name f hf := (hp.field hf).1
  value f hf := (hp.field hf).2

/-- The header is the head of a message, whatever follows it. -/
def IsHead (header : Bytes) (h : Head) : Prop :=
  h.Plain ∧ ∀ body, header ++ body = (h.message body).write

theorem isHead_lines (hp : h.Plain) (hh : header =
    block (headerLines (h.code ++ 32 :: h.reason) h.date h.modTime h.mime h.len) ++ eol) :
    IsHead header h := by
  refine ⟨hp, fun body => ?_⟩
  have hlines : headerLines (h.code ++ 32 :: h.reason) h.date h.modTime h.mime h.len =
      (h.message body).head := by
    obtain ⟨code, reason, date, modTime, mime, len⟩ := h
    cases modTime <;> rfl
  rw [hh, hlines]
  rfl

theorem statusCode_message (hp : h.Plain) : statusCode (h.message body).write = h.code := by
  have hlen : (ascii "HTTP/1.0 ").length = 9 := rfl
  have hwrite : ∃ rest, (h.message body).write = ascii "HTTP/1.0 " ++ (h.code ++ rest) :=
    ⟨32 :: h.reason ++ eol ++ block ((h.message body).fields.map fun f => fieldLine f.1 f.2) ++ eol
      ++ body, by simp [Message.write, Message.head, Message.startLine, block, Head.message]; rfl⟩
  obtain ⟨rest, hrest⟩ := hwrite
  rw [statusCode, hrest, ← hlen, List.drop_left, ← hp.code.2.2, List.take_left]

end Heads

section Headers

variable {env : Env} {round : ℕ} {c : Client} {rp : ResolvedPath} {req : Request} {buf : Bytes}
  {hb : Bytes × Bytes}

theorem errorDelivery_isHead (hd : OneLine req.timeReceived) {code : ClientResponse}
    (hc : code.isError = true) :
    ∃ h, IsHead (errorDelivery req code).1 h ∧ h.code = respValToStatusString code ∧
      h.len = (errorResponses code).body.length := by
  have hstatus : ∀ code : ClientResponse, code.isError = true →
      let status := (errorResponses code).statusLine
      status = status.take 3 ++ 32 :: status.drop 4 ∧ 32 ∉ status.take 3 ∧
        OneLine (status.take 3) ∧ (status.take 3).length = 3 ∧ OneLine (status.drop 4) ∧
        OneLine (errorResponses code).mimeType ∧ status.take 3 = respValToStatusString code := by
    intro code hcode
    cases code with
    | resp200 => cases hcode
    | numClientResp => cases hcode
    | _ => decide +kernel
  obtain ⟨h1, h2, h3, h4, h5, h6, h7⟩ := hstatus code hc
  have hlines := errorHeader_lines req (errorResponses code)
  rw [h1] at hlines
  exact ⟨⟨_, _, _, none, _, (errorResponses code).body.length⟩,
    isHead_lines ⟨⟨h2, h3, h4⟩, h5, hd, by simp, h6⟩ hlines, h7, rfl⟩

def okHead (date : Bytes) (modTime : Option Bytes) (mime : Bytes) (len : ℕ) : Head :=
  ⟨ascii "200", ascii "OK", date, modTime, mime, len⟩

theorem okHead_isHead {header date mime : Bytes} {modTime : Option Bytes} {len : ℕ}
    (hd : OneLine date) (ht : ∀ t, modTime = some t → OneLine t) (hm : OneLine mime)
    (hh : header = block (headerLines (ascii "200 OK") date modTime mime len) ++ eol) :
    IsHead header (okHead date modTime mime len) := by
  have hcode : 32 ∉ ascii "200" ∧ OneLine (ascii "200") ∧ (ascii "200").length = 3 := by decide
  have hreason : OneLine (ascii "OK") := by decide
  exact isHead_lines ⟨hcode, hreason, hd, ht, hm⟩ hh

theorem fileDelivery_isHead (he : PlainEnv env) (hd : OneLine req.timeReceived)
    (hmime : OneLine (rp.mimeType.getD (ascii "(null)"))) (h : fileDelivery env rp req = some hb) :
    ∃ modTime, IsHead hb.1
      (okHead req.timeReceived modTime (rp.mimeType.getD (ascii "(null)")) rp.fileSize) := by
  simp only [fileDelivery] at h
  split at h
  · rename_i modTime htime
    split_ifs at h
    cases h
    refine ⟨_, okHead_isHead hd ?_ hmime (fileHeader_lines req modTime.text _ _)⟩
    rintro t ⟨⟩
    exact he.times _ _ htime
  · cases h

theorem delivery_isHead (he : PlainEnv env) (hd : OneLine req.timeReceived)
    (hmime : OneLine (rp.mimeType.getD (ascii "(null)"))) (h : delivery env rp req = some hb) :
    ∃ h, IsHead hb.1 h := by
  have hhtml : OneLine (ascii "text/html") := by decide
  cases ht : rp.pathType with
  | isCgi =>
    simp only [delivery, ht, Option.map_eq_some_iff] at h
    obtain ⟨got, -, rfl⟩ := h
    exact ⟨_, okHead_isHead hd (by simp) hhtml (cgiHeader_lines req got.length)⟩
  | isDir =>
    simp only [delivery, ht, dirDelivery] at h
    split at h
    · rename_i node modTime hopen htime
      split_ifs at h
      cases h
      refine ⟨_, okHead_isHead hd ?_ hhtml (dirHeader_lines req modTime.text _)⟩
      rintro t ⟨⟩
      exact he.times _ _ htime
    · cases h
  | isFile =>
    simp only [delivery, ht] at h
    obtain ⟨modTime, hhead⟩ := fileDelivery_isHead he hd hmime h
    exact ⟨_, hhead⟩
  | unknown =>
    simp only [delivery, ht] at h
    cases h

theorem getMimeTypeByExt_oneLine {magic : Option Bytes} (hm : ∀ m, magic = some m → OneLine m)
    (filename : Bytes) :
    OneLine ((getMimeTypeByExt magic filename).getD (ascii "(null)")) := by
  have hmagic : OneLine (magic.getD (ascii "(null)")) := by
    cases magic with
    | none => decide
    | some m => exact hm m rfl
  have htable : ∀ e ∈ mimeTable, OneLine e.2 := by decide +kernel
  simp only [getMimeTypeByExt]
  split
  · exact hmagic
  · split
    · rename_i e he
      exact htable e (List.mem_of_find?_eq_some he)
    · exact hmagic

theorem resolvePath_mime_oneLine (he : PlainEnv env) :
    OneLine ((resolvePath env round c req .zero).rp.mimeType.getD (ascii "(null)")) := by
  have hnull : OneLine (ascii "(null)") := by decide
  have hhtml : OneLine (ascii "text/html") := by decide
  have hquery : (storeQuery .zero req.path).mimeType = none := by
    simp only [storeQuery]
    split <;> rfl
  simp only [resolvePath, resolveOpened, resolveDirectory, handleDirIndex]
  repeat' split
  all_goals simp only [hquery, Option.getD_some, Option.getD_none]
  all_goals first
    | exact hnull
    | exact hhtml
    | exact getMimeTypeByExt_oneLine (he.magic _) _

theorem parsed_time_oneLine (he : PlainEnv env) :
    OneLine (parsed env c buf).out.timeReceived := by
  rcases (parsed_time : (parsed env c buf).out.timeReceived = [] ∨ _) with h | h
  · rw [h]
    decide
  · rw [h]
    exact he.now

theorem response_isHead (he : PlainEnv env) : ∃ h, IsHead (response env round c buf).1 h := by
  have hdate : OneLine (parsed env c buf).out.timeReceived := parsed_time_oneLine he
  have hv : ResolveVerdict _ (resolved env round c buf) := resolvePath_verdict env round _ _ _
  have herror : ∀ code : ClientResponse, code.isError = true →
      ∃ h, IsHead (errorDelivery (parsed env c buf).out code).1 h := by
    intro code hc
    obtain ⟨h, hhead, -⟩ := errorDelivery_isHead hdate hc
    exact ⟨h, hhead⟩
  rw [response]
  split_ifs with hp hr
  · cases hd : delivery env (resolved env round c buf).rp (parsed env c buf).out with
    | none => exact herror _ (failCode_isError env _)
    | some hb => exact delivery_isHead he hdate (resolvePath_mime_oneLine he) hd
  · exact herror _ (hv.failed hr)
  · exact herror _ (parseRequest_error hp)

end Headers

section Responses

variable {env : Env} {round : ℕ} {c : Client} {buf out : Bytes}

theorem staged_statusCode (h : Staged c) (ho : c.outBuf = some out) :
    statusCode out = respValToStatusString c.respVal := by
  obtain ⟨out', ho', t, rfl⟩ := h.response
  rw [ho'] at ho
  cases ho
  have hlen : (ascii "HTTP/1.0 ").length = 9 := rfl
  rw [statusCode, List.append_assoc, ← hlen, List.drop_left,
    ← respValToStatusString_length c.respVal, List.take_left]

theorem staged_code {header body : Bytes} {head : Head} (hhead : IsHead header head)
    (h : Staged c) (ho : c.outBuf = some (header ++ body)) :
    head.code = respValToStatusString c.respVal := by
  rw [← staged_statusCode h ho, hhead.2 body, statusCode_message hhead.1]

theorem respond_message (he : PlainEnv env) (hc : c.outBuf = none)
    (ho : (respond env round c buf).client.outBuf = some out) :
    ∃ head body, Head.Plain head ∧ out = (head.message body).write ∧
      head.code = respValToStatusString (respond env round c buf).client.respVal := by
  have hret : (built env round c buf).ret = 0 := by
    by_contra hn
    have hnone := built_unstaged hn hc
    rw [← respond_built, ho] at hnone
    cases hnone
  obtain ⟨hst, -⟩ := built_stages he.output hret
  obtain ⟨head, hhead⟩ : ∃ head, IsHead (response env round c buf).1 head := response_isHead he
  have hout := hst.outBuf
  rw [← respond_built] at hout
  have hstaged : Staged (respond env round c buf).client := by
    apply (respond_answer hc).resolve_right
    rw [ho]
    simp
  have hcode := staged_code hhead hstaged hout
  rw [ho, Option.some.injEq, hhead.2] at hout
  exact ⟨head, _, hhead.1, hout, hcode⟩

end Responses

/-- What a peer has been sent when its connection ends reads as one message,
with the fields of a format of the program and the status decided on, or is
nothing. -/
theorem peers_read_one_message {pfds : ℕ → PollFd} {clients : ℕ → Client} {v4 v6 : Option ℕ}
    {s₀ s : Server} {answers : List PollAnswer} (h0 : setup pfds clients v4 v6 = .ok s₀)
    (h : eventLoop s₀ answers = .ok s)
    (hplain : ∀ r, .ready r ∈ answers → ∀ fd, PlainEnv (r.env fd)) :
    ∀ x ∈ endings s.trace, x.sent = [] ∨
      ∃ head body, HttpMessage.read x.sent = some (Head.message head body) ∧
        head.code = respValToStatusString x.client.respVal := by
  have hall : ∀ q ∈ processedRun s₀ answers, PlainEnv q.env ∧ q.client.outBuf = none := by
    refine processedRun_all (setup_books h0) ?_
    intro r hr round e q hst hq
    simp only [processedBy] at hq
    split_ifs at hq with hin
    obtain ⟨⟨c, buf⟩, hreq, rfl⟩ := Option.map_eq_some_iff.mp hq
    have hnot : e.2.state ≠ .sendingHeader := by
      rw [hin.2.2]
      decide
    exact ⟨hplain r hr e.2.fd, (requestIn_frame hreq).2.trans (hst.unstaged hnot)⟩
  intro x hx
  rcases ended_processed h0 h hx with hsent | ⟨hout, q, hq, hdone⟩
  · exact Or.inl hsent
  · right
    obtain ⟨henv, hnone⟩ := hall q hq
    have hclient : q.done.outBuf = some x.sent := by
      rw [hdone]
      exact hout
    have hresp : q.done.respVal = x.client.respVal := by
      rw [hdone]
      rfl
    obtain ⟨head, body, hp, hw, hcode⟩ := respond_message henv hnone hclient
    refine ⟨head, body, ?_, ?_⟩
    · rw [hw]
      exact read_write (hp.message body)
    · rw [hcode, ← hresp]
      rfl

theorem plainEnv_listingEnv (rs : List RecvResult) : ∀ r,
    .ready r ∈ oneOfTwo listingEnv rs → ∀ fd, PlainEnv (r.env fd) := by
  have hplain : ∀ env : Env, env.timeReceived.text = [] → (∀ t, env.gmtime t = none) →
      (∀ node, env.magicDescriptor node = none) → env.cgi.reads = [] → PlainEnv env := by
    intro env hnow htimes hmagic hreads
    refine ⟨by rw [hnow]; decide, by simp [htimes], by simp [hmagic], ?_⟩
    intro got hgot
    rw [hreads] at hgot
    cases hgot
    decide
  intro r hr fd
  simp only [oneOfTwo, List.mem_cons, List.not_mem_nil, or_false, PollAnswer.ready.injEq] at hr
  rcases hr with rfl | rfl | rfl
  all_goals exact hplain _ rfl (fun _ => rfl) (fun _ => rfl) rfl

theorem peers_read_one_message_listing :
    ∃ s, eventLoop startServer (oneOfTwo listingEnv getRoot) = .ok s ∧
      ∃ x ∈ endings s.trace, x.sent ≠ [] ∧ ∃ head body,
        HttpMessage.read x.sent = some (Head.message head body) ∧
          head.code = respValToStatusString x.client.respVal := by
  obtain ⟨s, hs, ht⟩ := Run.arrives_iff.mp (show Run.arrives
    (fun s => (endings s.trace).any fun x => decide (x.sent ≠ []))
    (eventLoop startServer (oneOfTwo listingEnv getRoot)) = true by decide +kernel)
  obtain ⟨x, hx, hsent⟩ := List.any_eq_true.mp ht
  have hmessage := peers_read_one_message setup_startServer hs (plainEnv_listingEnv getRoot) x hx
  exact ⟨s, hs, x, hx, of_decide_eq_true hsent,
    hmessage.resolve_left (of_decide_eq_true hsent)⟩

end SimpleServer
