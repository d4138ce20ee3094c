import SimpleServer.Requests.ParseRequest
import SimpleServer.Lib.Pathname

/-!
# The grammar that `parse_request` decides

`verdict` is the grammar on its own: the request line is what stands before the
first CR LF, its tokens are the maximal runs of bytes other than the space, and
the refusals come in a fixed order. The parser finds the line with `strnstr`,
takes it apart with four calls of `strtok` and checks a bounded copy of the
path; it decides the same.
-/

namespace SimpleServer

open CString Pathname

def servedVersions : List Bytes := [ascii "HTTP/1.0", ascii "HTTP/1.1"]

def refusedVersions : List Bytes := [ascii "HTTP/0.9", ascii "HTTP/2.0", ascii "HTTP/3.0"]

/-- The decision on method, path and version; `none` accepts. -/
def lineVerdict (m p v : Bytes) : Option ClientResponse :=
  if pathMax ≤ p.length then some .resp414
  else if p.head? ≠ some slash ∨ v ∉ servedVersions ++ refusedVersions then some .resp400
  else if v ∈ refusedVersions then some .resp505
  else if dotdot ++ [slash] <:+: p then some .resp403
  else if m ≠ ascii "GET" ∧ m ≠ ascii "HEAD" then some .resp501
  else none

def tokensVerdict : List Bytes → Option ClientResponse
  | [m, p, v] => lineVerdict m p v
  | _ => some .resp400

def firstLine (s : Bytes) : Bytes := s.take ((findSub crlf s).getD s.length)

def verdict (s : Bytes) : Option ClientResponse :=
  if headerEnd <:+: cstr s then tokensVerdict (tokens 32 (firstLine s)) else some .resp400

section Line

variable {buf : Bytes} {len : ℕ}

theorem strnstr_eq_none {find : Bytes} (hf : find ≠ []) :
    strnstr buf find len = none ↔ ¬ find <:+: cstr (buf.take len) := findSub_eq_none hf

theorem requestLine_eq_firstLine (h : headerEnd <:+: cstr (buf.take len)) :
    requestLine buf len = firstLine (buf.take len) := by
  have hc : crlf <:+: cstr (buf.take len) :=
    (show crlf <+: headerEnd by decide).isInfix.trans h
  cases hk : findSub crlf (cstr (buf.take len)) with
  | none => exact absurd hc ((findSub_eq_none (by decide)).mp hk)
  | some k =>
    have hle := findSub_cstr_le_length (by decide) hk
    have hlen := List.length_take_le len buf
    have hfirst : findSub crlf (buf.take len) = some k :=
      findSub_of_prefix (by decide) (cstr_isPrefix _) hk
    have hline : (buf.take len).take k = (cstr (buf.take len)).take k := by
      obtain ⟨t, ht⟩ := cstr_isPrefix (buf.take len)
      have hin := findSub_le_length (by decide) hk
      conv_lhs => rw [← ht]
      exact List.take_append_of_le_length (by omega)
    have hz : 0 ∉ (buf.take len).take k := by
      rw [hline]
      exact fun hm => zero_notMem_cstr _ (List.mem_of_mem_take hm)
    rw [firstLine, hfirst, requestLine, strnstr, hk, Option.getD_some, Option.getD_some]
    rw [List.take_take, Nat.min_eq_left (by omega)] at hz ⊢
    exact cstr_of_notMem hz

end Line

section Tokens

variable (line : Bytes) (out : Request) (resp : ClientResponse) (le : LogEntry)

theorem parseLine_eq_tokens : parseLine line out resp le =
    match tokens 32 line with
    | [m, p, v] =>
      let out := { out with
        method := methodFromToken m, version := versionFromToken v, path := strlcpy p pathMax }
      if pathMax ≤ p.length then ⟨-1, out, .resp414, le⟩ else checkRequest out resp le
    | _ => determined400 out le := by
  obtain ⟨h1, r1⟩ := strtok_tokens 32 line
  obtain ⟨h2, r2⟩ := strtok_tokens 32 (strtok 32 line).2
  obtain ⟨h3, r3⟩ := strtok_tokens 32 (strtok 32 (strtok 32 line).2).2
  obtain ⟨h4, -⟩ := strtok_tokens 32 (strtok 32 (strtok 32 (strtok 32 line).2).2).2
  simp only [parseLine, h1, h2, h3, h4, r1, r2, r3]
  rcases tokens 32 line with _ | ⟨m, _ | ⟨p, _ | ⟨v, _ | ⟨x, rest⟩⟩⟩⟩ <;> rfl

end Tokens

section Checks

variable {m p v : Bytes} {out : Request} {resp : ClientResponse} {le : LogEntry}

theorem versionFromToken_unknown :
    versionFromToken v = .unknown ↔ v ∉ servedVersions ++ refusedVersions := by
  simp only [versionFromToken, servedVersions, refusedVersions]
  split_ifs <;> simp_all

theorem versionFromToken_unsupported :
    versionFromToken v = .unsupported ↔ v ∈ refusedVersions := by
  simp only [versionFromToken, refusedVersions]
  split_ifs with h10 h11 h09 h2 h3
  · simp only [h10]
    decide
  · simp only [h11]
    decide
  all_goals simp_all

theorem versionFromToken_served (hv : v ∈ servedVersions) :
    versionFromToken v = if v = ascii "HTTP/1.0" then .http10 else .http11 := by
  simp only [versionFromToken]
  split_ifs with h10 h11
  · rfl
  · rfl
  all_goals simp_all [servedVersions]

theorem methodFromToken_get : methodFromToken m = .get ↔ m = ascii "GET" := by
  simp only [methodFromToken]
  split_ifs <;> simp_all

theorem methodFromToken_head : methodFromToken m = .head ↔ m = ascii "HEAD" := by
  simp only [methodFromToken]
  split_ifs with h1 h2 h3
  · simp only [h1]
    decide
  · simp only [h2]
    decide
  all_goals simp_all

theorem pathHasTraversal_iff (hz : 0 ∉ p) :
    pathHasTraversal p = true ↔ dotdot ++ [slash] <:+: p := by
  have hn : findSub (ascii "../") p = none ↔ ¬ dotdot ++ [slash] <:+: p :=
    findSub_eq_none (by decide)
  rw [pathHasTraversal, strnstr_length, cstr_of_notMem hz, ← not_iff_not, ← hn]
  simp

end Checks

/-- What the parser makes of `s`, of the request it is to fill and of the code
it is to set. -/
structure ParsesAs (now : TimeStamp) (s : Bytes) (out : Request) (resp : ClientResponse)
    (r : ParseResult) : Prop where
  refused : ∀ code, verdict s = some code → r.ret = -1 ∧ r.resp = code
  malformed : verdict s = some .resp400 →
    r.out.method = .unknown ∧ r.out.version = .unknown ∧
      (out.path = [] → r.out.path.length < pathMax ∧ 0 ∉ r.out.path)
  accepted : verdict s = none → r.ret = 0 ∧ r.resp = resp ∧
    ∃ m p v, tokens 32 (firstLine s) = [m, p, v] ∧ r.out = { out with
      timeReceived := now.text
      method := if m = ascii "GET" then .get else .head
      version := if v = ascii "HTTP/1.0" then .http10 else .http11
      path := p }

section Decision

variable {now : TimeStamp} {s : Bytes} {out : Request} {resp : ClientResponse} {le : LogEntry}

theorem ParsesAs.of_refused {code : ClientResponse} {r : ParseResult}
    (hv : verdict s = some code) (hr : r.ret = -1 ∧ r.resp = code)
    (hm : code = .resp400 → r.out.method = .unknown ∧ r.out.version = .unknown ∧
      (out.path = [] → r.out.path.length < pathMax ∧ 0 ∉ r.out.path)) :
    ParsesAs now s out resp r := by
  refine ⟨fun c hc => ?_, fun hc => ?_, fun hc => ?_⟩
  · rw [hv] at hc
    cases hc
    exact hr
  · rw [hv] at hc
    cases hc
    exact hm rfl
  · rw [hv] at hc
    cases hc

theorem ParsesAs.of_malformed {out' : Request} (hv : verdict s = some .resp400)
    (hp : out.path = [] → out'.path.length < pathMax ∧ 0 ∉ out'.path) :
    ParsesAs now s out resp (determined400 out' le) :=
  .of_refused hv ⟨rfl, rfl⟩ fun _ => ⟨rfl, rfl, hp⟩

theorem methodFromToken_refused (m : Bytes) :
    methodFromToken m = .unknown ∨ methodFromToken m = .post ↔
      m ≠ ascii "GET" ∧ m ≠ ascii "HEAD" := by
  rw [ne_eq, ne_eq, ← methodFromToken_get, ← methodFromToken_head]
  cases methodFromToken m <;> simp

theorem checkRequest_eq {m p v : Bytes} (hz : 0 ∉ p) (now : Bytes) (out : Request)
    (resp : ClientResponse) (le : LogEntry) :
    let out' := { out with
      timeReceived := now
      method := methodFromToken m
      version := versionFromToken v
      path := p }
    checkRequest out' resp le =
      if p.head? ≠ some slash ∨ v ∉ servedVersions ++ refusedVersions then determined400 out' le
      else if v ∈ refusedVersions then ⟨-1, out', .resp505, le⟩
      else if dotdot ++ [slash] <:+: p then ⟨-1, out', .resp403, le⟩
      else if m ≠ ascii "GET" ∧ m ≠ ascii "HEAD" then ⟨-1, out', .resp501, le⟩
      else ⟨0, out', resp, le⟩ := by
  simp only [checkRequest, versionFromToken_unknown, versionFromToken_unsupported,
    pathHasTraversal_iff hz, ← methodFromToken_refused, ite_or]
  rfl

theorem checkRequest_parses {m p v : Bytes} (hs : verdict s = lineVerdict m p v)
    (ht : tokens 32 (firstLine s) = [m, p, v]) (hlen : p.length < pathMax) (hz : 0 ∉ p) :
    ParsesAs now s out resp (checkRequest { out with
      timeReceived := now.text
      method := methodFromToken m
      version := versionFromToken v
      path := p } resp le) := by
  rw [lineVerdict, if_neg (by omega)] at hs
  rw [checkRequest_eq hz now.text out]
  split_ifs at hs ⊢ with h1 h2 h3 h4
  · exact .of_malformed hs fun _ => ⟨hlen, hz⟩
  · exact .of_refused hs ⟨rfl, rfl⟩ (fun h => by cases h)
  · exact .of_refused hs ⟨rfl, rfl⟩ (fun h => by cases h)
  · exact .of_refused hs ⟨rfl, rfl⟩ (fun h => by cases h)
  · have hv : v ∈ servedVersions := by
      have hin := not_not.mp (not_or.mp h1).2
      exact (List.mem_append.mp hin).resolve_right h2
    have hm : methodFromToken m = if m = ascii "GET" then .get else .head := by
      split_ifs with hg
      · exact methodFromToken_get.mpr hg
      · exact methodFromToken_head.mpr (by_contra fun hh => h4 ⟨hg, hh⟩)
    refine ⟨fun c hc => ?_, fun hc => ?_, fun _ => ⟨rfl, rfl, m, p, v, ht, ?_⟩⟩
    · rw [hs] at hc
      cases hc
    · rw [hs] at hc
      cases hc
    · rw [hm, versionFromToken_served hv]

end Decision

theorem parseRequest_parses (flags : Flags) (now : TimeStamp) (buf : Bytes) (len : ℕ)
    (out : Request) (resp : ClientResponse) (le : LogEntry) :
    ParsesAs now (buf.take len) out resp (parseRequest flags now buf len out resp le) := by
  have hnone : strnstr buf headerEnd len = none ↔ ¬ headerEnd <:+: cstr (buf.take len) :=
    strnstr_eq_none (by decide)
  by_cases hterm : headerEnd <:+: cstr (buf.take len)
  · have hgo : ¬ (len = 0 ∨ strnstr buf headerEnd len = none) := by
      rw [hnone, not_or, not_not]
      refine ⟨fun h0 => ?_, hterm⟩
      rw [h0, List.take_zero] at hterm
      exact absurd hterm (by decide)
    have hv : verdict (buf.take len) = tokensVerdict (tokens 32 (firstLine (buf.take len))) :=
      if_pos hterm
    rw [parseRequest, if_neg hgo]
    simp only [requestLine_eq_firstLine hterm, parseLine_eq_tokens]
    split
    · rename_i m p v ht
      rw [ht] at hv
      have hz : 0 ∉ p := by
        intro hm
        have hsub : p ⊆ firstLine (buf.take len) :=
          subset_of_mem_tokens (d := 32) (by rw [ht]; simp)
        rw [← requestLine_eq_firstLine hterm] at hsub
        exact zero_notMem_cstr _ (hsub hm)
      split
      · rename_i hlong
        exact .of_refused (hv.trans (if_pos hlong)) ⟨rfl, rfl⟩ (fun h => by cases h)
      · rename_i hshort
        rw [strlcpy_of_length_lt (by omega)]
        exact checkRequest_parses hv ht (by omega) hz
    · rename_i hnot
      refine .of_malformed (hv.trans ?_) fun hp => ?_
      · rcases htok : tokens 32 (firstLine (buf.take len)) with
          _ | ⟨m, _ | ⟨p, _ | ⟨v, _ | ⟨x, rest⟩⟩⟩⟩
        · rfl
        · rfl
        · rfl
        · exact absurd htok (hnot m p v)
        · rfl
      · simp [hp, pathMax]
  · have hv : verdict (buf.take len) = some .resp400 := if_neg hterm
    rw [parseRequest, if_pos (Or.inr (hnone.mpr hterm))]
    refine .of_malformed hv fun hp => ?_
    simp [hp, pathMax]

/-- The parser decides the grammar, and copies no more into its line buffer than
fits. -/
theorem parseRequest_decides_grammar (flags : Flags) (now : TimeStamp) (buf : Bytes) (len : ℕ)
    (out : Request) (resp : ClientResponse) (le : LogEntry) (hlen : len ≤ maxRequestSize) :
    ParsesAs now (buf.take len) out resp (parseRequest flags now buf len out resp le) ∧
      (strnstr buf crlf len).getD len ≤ maxRequestSize :=
  ⟨parseRequest_parses flags now buf len out resp le, (lineEnd_le buf len).trans hlen⟩

section GetRequests

variable {t : Bytes}

def getRequest (t : Bytes) : Bytes := ascii "GET " ++ t ++ ascii " HTTP/1.0" ++ headerEnd

theorem firstLine_noCrlf (s : Bytes) : ¬ crlf <:+: firstLine s := by
  cases hk : findSub crlf s with
  | none =>
    rw [firstLine, hk, Option.getD_none, List.take_length]
    exact (findSub_eq_none (by decide)).mp hk
  | some k =>
    rw [firstLine, hk, Option.getD_some]
    intro hin
    cases hj : findSub crlf (s.take k) with
    | none => exact (findSub_eq_none (by decide)).mp hj hin
    | some j =>
      have hlen := findSub_le_length (by decide) hj
      have hfirst := findSub_of_prefix (by decide) (List.take_prefix k s) hj
      rw [hk] at hfirst
      cases hfirst
      have htake := List.length_take_le k s
      have h2 : crlf.length = 2 := rfl
      omega

theorem firstLine_append {line : Bytes} (hc : ¬ crlf <:+: line) (s : Bytes) :
    firstLine (line ++ (crlf ++ s)) = line := by
  have hcr : ¬ crlf <:+: line ++ crlf.dropLast := by
    rw [List.infix_append_iff]
    rintro (h | h | ⟨u, v, huv, hu, hv⟩)
    · exact hc h
    · exact absurd h (by decide)
    · rcases List.prefix_cons_iff.mp hv with rfl | ⟨v', rfl, hv'⟩
      · rw [List.append_nil] at huv
        exact hc (huv ▸ hu.isInfix)
      · -- the last byte of CR LF would be a CR
        rw [List.prefix_nil.mp hv'] at huv
        have hlast := congrArg List.getLast? huv
        rw [List.getLast?_concat] at hlast
        exact absurd hlast (by decide)
  rw [firstLine, findSub_first (by decide) hcr, Option.getD_some, List.take_left]

theorem getRequest_tokens (hne : t ≠ []) (hs : 32 ∉ t) (hc : ¬ crlf <:+: t) :
    tokens 32 (firstLine (getRequest t)) = [ascii "GET", t, ascii "HTTP/1.0"] := by
  have hsplit : getRequest t =
      (ascii "GET" ++ 32 :: (t ++ 32 :: ascii "HTTP/1.0")) ++ (crlf ++ crlf) := by
    simp [getRequest, ascii, headerEnd, crlf]
  rw [hsplit, firstLine_append, tokens_run_append (by decide) (by decide), tokens_run_append hne hs,
    tokens_run (by decide) (by decide)]
  rw [infix_append_cons (by decide), infix_append_cons (by decide), not_or, not_or]
  exact ⟨by decide, hc, by decide⟩

theorem getRequest_verdict (hne : t ≠ []) (hz : 0 ∉ t) (hs : 32 ∉ t) (hc : ¬ crlf <:+: t) :
    verdict (getRequest t) = lineVerdict (ascii "GET") t (ascii "HTTP/1.0") := by
  have hterm : headerEnd <:+: cstr (getRequest t) := by
    rw [cstr_of_notMem]
    · exact (List.suffix_append _ _).isInfix
    · simp only [getRequest, List.mem_append, not_or]
      exact ⟨⟨⟨by decide, hz⟩, by decide⟩, by decide⟩
  rw [verdict, if_pos hterm, getRequest_tokens hne hs hc]
  rfl

theorem getRequest_accepted (hroot : t.head? = some slash) (hshort : t.length < pathMax)
    (hclean : ¬ dotdot ++ [slash] <:+: t) (hz : 0 ∉ t) (hs : 32 ∉ t) (hc : ¬ crlf <:+: t) :
    verdict (getRequest t) = none ∧
      tokens 32 (firstLine (getRequest t)) = [ascii "GET", t, ascii "HTTP/1.0"] := by
  have hne : t ≠ [] := by
    rintro rfl
    cases hroot
  refine ⟨?_, getRequest_tokens hne hs hc⟩
  have h10 : ascii "HTTP/1.0" ∈ servedVersions ++ refusedVersions := by decide
  rw [getRequest_verdict hne hz hs hc, lineVerdict, if_neg (by omega),
    if_neg (by simp [hroot, h10]), if_neg (by decide), if_neg hclean, if_neg (by simp)]

end GetRequests

def noFlags : Flags := ⟨false, false, false, false, false⟩

def someTime : TimeStamp := ⟨ascii "2025-01-01T00:00:00Z", by decide, by decide⟩

theorem parseRequest_decides_grammar_spaces :
    let buf := ascii " HEAD   /a HTTP/1.1 \r\n\r\n"
    let r := parseRequest noFlags someTime buf buf.length .zero .numClientResp .zero
    buf.length ≤ maxRequestSize ∧ verdict (buf.take buf.length) = none ∧ r.ret = 0 ∧
      r.resp = .numClientResp := by
  intro buf r
  have hlen : buf.length ≤ maxRequestSize := by decide
  have hv : verdict (buf.take buf.length) = none := by decide +kernel
  have hacc := (parseRequest_decides_grammar noFlags someTime buf buf.length .zero .numClientResp
    .zero hlen).1.accepted hv
  exact ⟨hlen, hv, hacc.1, hacc.2.1⟩

/-- The part of a target before its first `?`. -/
def component (path : Bytes) : Bytes := path.takeWhile (· != 63)

def queryPart (path : Bytes) : Bytes := (path.dropWhile (· != 63)).drop 1

section Targets

variable {path : Bytes}

theorem component_noQuery (path : Bytes) : 63 ∉ component path := by
  intro h
  simpa using List.mem_takeWhile_imp h

theorem component_of_notMem (h : 63 ∉ path) : component path = path ∧ queryPart path = [] := by
  have hall : ∀ b ∈ path, (b != 63) = true := by
    intro b hb
    have hne : b ≠ 63 := fun he => h (he ▸ hb)
    simpa using hne
  refine ⟨List.takeWhile_eq_self_iff.mpr hall, ?_⟩
  rw [queryPart, List.dropWhile_eq_nil_iff.mpr hall]
  rfl

theorem component_query (h : 63 ∈ path) : path = component path ++ 63 :: queryPart path := by
  have hsplit := List.takeWhile_append_dropWhile (p := (· != 63)) (l := path)
  rcases dropWhile_run 63 path with hr | ⟨r, hr⟩
  · rw [hr, List.append_nil] at hsplit
    rw [← hsplit] at h
    exact absurd h (component_noQuery path)
  · rw [queryPart, hr, List.drop_one, List.tail_cons, ← hr]
    exact hsplit.symm

theorem traversal_infix_iff (path : Bytes) : dotdot ++ [slash] <:+: path ↔
    (∃ n ∈ (segments (component path)).dropLast, dotdot <:+ n) ∨
      dotdot ++ [slash] <:+: queryPart path := by
  rw [← dotdot_slash_infix]
  by_cases hq : 63 ∈ path
  · conv_lhs => rw [component_query hq]
    exact infix_append_cons (by decide)
  · obtain ⟨hc, hn⟩ := component_of_notMem hq
    rw [hc, hn]
    simp [dotdot]

end Targets

/-- A well-formed request whose path has no segment `..` is not answered `403`
if and only if no segment but the last ends in `..` and the query has no `../`. -/
theorem forbidden_without_dotdot_iff (flags : Flags) (now : TimeStamp) (buf : Bytes) (len : ℕ)
    (out : Request) (resp : ClientResponse) (le : LogEntry) {m p v : Bytes}
    (hterm : headerEnd <:+: cstr (buf.take len))
    (ht : tokens 32 (firstLine (buf.take len)) = [m, p, v]) (hv : v ∈ servedVersions)
    (hm : m = ascii "GET" ∨ m = ascii "HEAD") (hp : p.head? = some slash)
    (hshort : p.length < pathMax) :
    let r := parseRequest flags now buf len out resp le
    dotdot ∉ segments (component p) →
      (¬ (r.ret = -1 ∧ r.resp = .resp403) ↔
        (∀ n ∈ (segments (component p)).dropLast, ¬ dotdot <:+ n) ∧
          ¬ dotdot ++ [slash] <:+: queryPart p) := by
  intro r _
  have hparse : ParsesAs now (buf.take len) out resp r :=
    parseRequest_parses flags now buf len out resp le
  have hline : verdict (buf.take len) =
      if dotdot ++ [slash] <:+: p then some .resp403 else none := by
    have hserved : v ∉ refusedVersions := by
      rcases List.mem_cons.mp hv with rfl | hv
      · decide
      · rw [List.mem_singleton.mp hv]
        decide
    have hmeth : ¬ (m ≠ ascii "GET" ∧ m ≠ ascii "HEAD") := fun h => hm.elim h.1 h.2
    rw [verdict, if_pos hterm, ht, tokensVerdict, lineVerdict, if_neg (by omega),
      if_neg (not_or.mpr ⟨not_not.mpr hp, not_not.mpr (List.mem_append_left _ hv)⟩),
      if_neg hserved, if_neg hmeth]
  have hwhere := traversal_infix_iff p
  by_cases htrav : dotdot ++ [slash] <:+: p
  · rw [if_pos htrav] at hline
    refine ⟨fun h => absurd (hparse.refused _ hline) h, fun h => ?_⟩
    rcases hwhere.mp htrav with ⟨n, hn, hd⟩ | hq
    · exact absurd hd (h.1 n hn)
    · exact absurd hq h.2
  · rw [if_neg htrav] at hline
    refine ⟨fun _ => ?_, fun _ h => ?_⟩
    · exact ⟨fun n hn hd => htrav (hwhere.mpr (Or.inl ⟨n, hn, hd⟩)),
        fun hq => htrav (hwhere.mpr (Or.inr hq))⟩
    · have hret := (hparse.accepted hline).1
      rw [h.1] at hret
      cases hret

theorem forbidden_without_dotdot_iff_inner :
    let buf := ascii "GET /my..file/b.. HTTP/1.0\r\n\r\n"
    let r := parseRequest noFlags someTime buf buf.length .zero .numClientResp .zero
    ¬ (r.ret = -1 ∧ r.resp = .resp403) :=
  (forbidden_without_dotdot_iff noFlags someTime _ _ .zero .numClientResp .zero
    (m := ascii "GET") (p := ascii "/my..file/b..") (v := ascii "HTTP/1.0") (by decide +kernel)
    (by decide +kernel) (by decide +kernel) (by decide +kernel) (by decide +kernel)
    (by decide +kernel) (by decide +kernel)).mpr (by decide +kernel)

/-- A directory name that ends in `..`, and a query with `../`. -/
theorem dotdot_in_name_forbidden :
    let answer := fun buf => parseRequest noFlags someTime buf buf.length .zero .numClientResp .zero
    let named := ascii "GET /a../b HTTP/1.0\r\n\r\n"
    let queried := ascii "GET /a?b=../c HTTP/1.0\r\n\r\n"
    tokens 32 (firstLine named) = [ascii "GET", ascii "/a../b", ascii "HTTP/1.0"] ∧
      dotdot ∉ segments (component (ascii "/a../b")) ∧ (answer named).resp = .resp403 ∧
      (answer named).ret = -1 ∧ dotdot ∉ segments (component (ascii "/a?b=../c")) ∧
      (answer queried).ret = -1 ∧ (answer queried).resp = .resp403 := by
  decide +kernel

end SimpleServer
