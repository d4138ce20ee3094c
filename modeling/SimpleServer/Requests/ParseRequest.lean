import SimpleServer.Logging

/-!
# `parse_request`

The request line is cut out of the buffer at the first CR LF, split by four
calls of `strtok`, and checked in the order of the source. The method, the
version and a bounded copy of the path are stored before any of the checks
behind the token count, so a refused request still carries them.
-/

namespace SimpleServer

open CString

def methodFromToken (tok : Bytes) : HttpMethod :=
  if tok = ascii "GET" then .get
  else if tok = ascii "POST" then .post
  else if tok = ascii "HEAD" then .head
  else .unknown

def versionFromToken (tok : Bytes) : HttpVersion :=
  if tok = ascii "HTTP/1.0" then .http10
  else if tok = ascii "HTTP/1.1" then .http11
  else if tok = ascii "HTTP/0.9" then .unsupported
  else if tok = ascii "HTTP/2.0" then .unsupported
  else if tok = ascii "HTTP/3.0" then .unsupported
  else .unknown

def pathHasTraversal (path : Bytes) : Bool :=
  (strnstr path (ascii "../") path.length).isSome

structure ParseResult where
  ret : ℤ
  out : Request
  resp : ClientResponse
  le : LogEntry
  deriving DecidableEq, Repr

def determined400 (out : Request) (le : LogEntry) : ParseResult :=
  ⟨-1, { out with method := .unknown, version := .unknown }, .resp400, le⟩

/-- The checks behind the storing of the three tokens. -/
def checkRequest (out : Request) (resp : ClientResponse) (le : LogEntry) : ParseResult :=
  if out.path.head? ≠ some 47 then determined400 out le
  else if out.version = .unknown then determined400 out le
  else if out.version = .unsupported then ⟨-1, out, .resp505, le⟩
  else if pathHasTraversal out.path then ⟨-1, out, .resp403, le⟩
  else if out.method = .unknown then ⟨-1, out, .resp501, le⟩
  else if out.method = .post then ⟨-1, out, .resp501, le⟩
  else ⟨0, out, resp, le⟩

def requestLine (buf : Bytes) (len : ℕ) : Bytes :=
  cstr (buf.take ((strnstr buf crlf len).getD len))

def parseLine (line : Bytes) (out : Request) (resp : ClientResponse) (le : LogEntry) :
    ParseResult :=
  let method := strtok 32 line
  let path := strtok 32 method.2
  let version := strtok 32 path.2
  let extra := strtok 32 version.2
  match method.1, path.1, version.1, extra.1 with
  | some m, some p, some v, none =>
    let out := { out with
      method := methodFromToken m, version := versionFromToken v, path := strlcpy p pathMax }
    if pathMax ≤ p.length then ⟨-1, out, .resp414, le⟩ else checkRequest out resp le
  | _, _, _, _ => determined400 out le

def parseRequest (flags : Flags) (now : TimeStamp) (buf : Bytes) (len : ℕ) (out : Request)
    (resp : ClientResponse) (le : LogEntry) : ParseResult :=
  if len = 0 ∨ strnstr buf headerEnd len = none then determined400 out le
  else
    let out := { out with timeReceived := now.text }
    let line := requestLine buf len
    let le := if flags.logging then
        logAppend le (now.text ++ ascii " \"" ++ line ++ ascii "\" ") else le
    parseLine line out resp le

def ClientResponse.isError (r : ClientResponse) : Bool :=
  decide (ClientResponse.resp400.toNat ≤ r.toNat ∧ r.toNat < ClientResponse.numClientResp.toNat)

section Accepted

variable {out : Request} {resp : ClientResponse} {le : LogEntry}

theorem checkRequest_ret : (checkRequest out resp le).ret = 0 ∨
    (checkRequest out resp le).ret = -1 ∧ (checkRequest out resp le).resp.isError = true := by
  simp only [checkRequest, determined400]
  split_ifs <;> first | exact Or.inl rfl | exact Or.inr ⟨rfl, rfl⟩

theorem checkRequest_ok (h : (checkRequest out resp le).ret = 0) :
    checkRequest out resp le = ⟨0, out, resp, le⟩ ∧ out.path.head? = some 47 ∧
      (out.version = .http09 ∨ out.version = .http10 ∨ out.version = .http11) ∧
      pathHasTraversal out.path = false ∧ (out.method = .get ∨ out.method = .head) := by
  simp only [checkRequest, determined400] at h ⊢
  split_ifs at h ⊢ with h1 h2 h3 h4 h5 h6 <;> simp_all
  constructor
  · cases hv : out.version <;> simp_all
  · cases hm : out.method <;> simp_all

theorem parseLine_ret (line : Bytes) : (parseLine line out resp le).ret = 0 ∨
    (parseLine line out resp le).ret = -1 ∧
      (parseLine line out resp le).resp.isError = true := by
  simp only [parseLine]
  split
  · split_ifs
    · exact Or.inr ⟨rfl, rfl⟩
    · exact checkRequest_ret
  · exact Or.inr ⟨rfl, rfl⟩

theorem parseLine_ok {line : Bytes} (h : (parseLine line out resp le).ret = 0) :
    ∃ m p v, m ≠ [] ∧ p ≠ [] ∧ v ≠ [] ∧ p.length < pathMax ∧ 32 ∉ p ∧ p <:+: line ∧
      p.head? = some 47 ∧ pathHasTraversal p = false ∧
      (methodFromToken m = .get ∨ methodFromToken m = .head) ∧
      (versionFromToken v = .http10 ∨ versionFromToken v = .http11) ∧
      parseLine line out resp le = ⟨0, { out with
        method := methodFromToken m, version := versionFromToken v, path := p }, resp, le⟩ := by
  simp only [parseLine] at h ⊢
  split at h
  · rename_i m p v hm hp hv hx
    have hlen : ¬ pathMax ≤ p.length := by
      intro hl
      simp [hl] at h
    have hcopy : strlcpy p pathMax = p := strlcpy_of_length_lt (by omega)
    simp only [hlen, if_false, hcopy] at h
    obtain ⟨heq, hhead, hver, htrav, hmeth⟩ := checkRequest_ok h
    have htm := strtok_some (Prod.ext hm rfl : strtok 32 line = (some m, (strtok 32 line).2))
    have htp := strtok_some (Prod.ext hp rfl :
      strtok 32 (strtok 32 line).2 = (some p, (strtok 32 (strtok 32 line).2).2))
    have htv := strtok_some (Prod.ext hv rfl : strtok 32 (strtok 32 (strtok 32 line).2).2 =
      (some v, (strtok 32 (strtok 32 (strtok 32 line).2).2).2))
    refine ⟨m, p, v, htm.1, htp.1, htv.1, by omega, htp.2.1,
      htp.2.2.trans (strtok_rest_suffix 32 line).isInfix, hhead, htrav, hmeth, ?_, ?_⟩
    · rcases hver with hver | hver | hver
      · simp only [versionFromToken] at hver
        split_ifs at hver
      · exact Or.inl hver
      · exact Or.inr hver
    · simp only [hlen, if_false, hcopy]
      exact heq
  · simp [determined400] at h

end Accepted

theorem parseRequest_ret (flags : Flags) (now : TimeStamp) (buf : Bytes) (len : ℕ) (out : Request)
    (resp : ClientResponse) (le : LogEntry) :
    (parseRequest flags now buf len out resp le).ret = 0 ∨
      (parseRequest flags now buf len out resp le).ret = -1 ∧
        (parseRequest flags now buf len out resp le).resp.isError = true := by
  simp only [parseRequest]
  split_ifs
  · exact Or.inr ⟨rfl, rfl⟩
  · exact parseLine_ret _
  · exact parseLine_ret _

theorem parseRequest_error {flags : Flags} {now : TimeStamp} {buf : Bytes} {len : ℕ}
    {out : Request} {resp : ClientResponse} {le : LogEntry}
    (h : (parseRequest flags now buf len out resp le).ret ≠ 0) :
    (parseRequest flags now buf len out resp le).resp.isError = true := by
  rcases parseRequest_ret flags now buf len out resp le with h0 | h1
  · exact absurd h0 h
  · exact h1.2

section Prefix

theorem strnstr_take (buf find : Bytes) (len : ℕ) :
    strnstr (buf.take len) find len = strnstr buf find len := by
  rw [strnstr, strnstr, List.take_take, Nat.min_self]

theorem lineEnd_le (buf : Bytes) (len : ℕ) : (strnstr buf crlf len).getD len ≤ len := by
  cases h : strnstr buf crlf len with
  | none => exact le_rfl
  | some k =>
    have hk := findSub_cstr_le_length (by decide) h
    have ht := List.length_take_le len buf
    change k ≤ len
    omega

theorem requestLine_take (buf : Bytes) (len : ℕ) :
    requestLine (buf.take len) len = requestLine buf len := by
  rw [requestLine, requestLine, strnstr_take, List.take_take, Nat.min_eq_left (lineEnd_le buf len)]

theorem requestLine_length_le (buf : Bytes) (len : ℕ) : (requestLine buf len).length ≤ len := by
  calc (requestLine buf len).length
      ≤ (buf.take ((strnstr buf crlf len).getD len)).length := (cstr_isPrefix _).length_le
    _ ≤ (strnstr buf crlf len).getD len := List.length_take_le _ _
    _ ≤ len := lineEnd_le buf len

/-- The parser looks at no byte behind the length it is given. -/
theorem parseRequest_take (flags : Flags) (now : TimeStamp) (buf : Bytes) (len : ℕ)
    (out : Request) (resp : ClientResponse) (le : LogEntry) :
    parseRequest flags now (buf.take len) len out resp le =
      parseRequest flags now buf len out resp le := by
  simp only [parseRequest, strnstr_take, requestLine_take]

end Prefix

end SimpleServer
