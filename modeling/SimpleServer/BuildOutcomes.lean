import SimpleServer.Listing
import SimpleServer.StagedResponse

/-!
# What the builders stage

`delivery` is the header and the body that a resolved resource has, and `none`
when something that its builder asks for is refused. A builder stages the
header and, unless the method is `HEAD`, the body; the CGI builder stages both
for every method. `response` puts the error responses beside it: it is what a
whole request is answered with.
-/

namespace SimpleServer

open CString FileTree SlotArray

/-- What the script writes when every call made for it is granted and it exits
with 0. -/
def cgiOutput (env : Env) (rp : ResolvedPath) : Option Bytes :=
  if env.flags.c = true ∧ env.cgi.pipe = true ∧ rp.queryString.length ≤ pathMax ∧
      env.cgi.fork = true ∧ env.cgi.malloc = true ∧ env.cgi.waitpid = true ∧
      env.cgi.status = .exited 0 ∧ env.cgi.outMalloc = true then
    cgiCollect cgiCapacity [] env.cgi.reads
  else none

def dirDelivery (env : Env) (rp : ResolvedPath) (req : Request) : Option (Bytes × Bytes) :=
  match env.opendir (req.path.drop 1), env.gmtime rp.lastMod with
  | .ok node, some modTime =>
    let body := dirBody (req.path.drop 1) (env.readdir node)
    if env.bodyStream = true ∧ env.outStream = true then
      some (dirHeader req modTime.text body.length, body)
    else none
  | _, _ => none

def fileDelivery (env : Env) (rp : ResolvedPath) (req : Request) : Option (Bytes × Bytes) :=
  match env.gmtime rp.lastMod with
  | some modTime =>
    if env.outStream = true then
      some (fileHeader req modTime.text rp.mimeType rp.fileSize,
        (rp.filePtr.map fun h => env.fread h.node).getD [])
    else none
  | none => none

def delivery (env : Env) (rp : ResolvedPath) (req : Request) : Option (Bytes × Bytes) :=
  match rp.pathType with
  | .isCgi => (cgiOutput env rp).map fun got => (cgiHeader req got.length, got)
  | .isDir => dirDelivery env rp req
  | .isFile => fileDelivery env rp req
  | .unknown => none

/-- The error that is answered where nothing is delivered. -/
def failCode (env : Env) (rp : ResolvedPath) : ClientResponse :=
  match rp.pathType with
  | .isCgi =>
    if env.flags.c = false then .resp501
    else if env.cgi.pipe = true ∧ pathMax < rp.queryString.length then .resp414
    else .resp500
  | _ => .resp500

def errorDelivery (req : Request) (code : ClientResponse) : Bytes × Bytes :=
  (errorHeader req (errorResponses code), (errorResponses code).body)

/-- What a builder that succeeds leaves in the client. -/
structure Stages (b : BuildResult) (header body : Bytes) : Prop where
  ret : b.ret = 0
  outBuf : b.client.outBuf = some (header ++ body)
  headerLen : b.client.headerLen = header.length
  outputLength : b.client.outputLength = header.length + body.length

section Builders

variable {env : Env} {round : ℕ} {c : Client} {rp : ResolvedPath} {req : Request}
  {header body got : Bytes}

theorem cgiOutput_some (h : cgiOutput env rp = some got) :
    (env.flags.c = true ∧ env.cgi.pipe = true ∧ rp.queryString.length ≤ pathMax ∧
      env.cgi.fork = true ∧ env.cgi.malloc = true ∧ env.cgi.waitpid = true ∧
      env.cgi.status = .exited 0 ∧ env.cgi.outMalloc = true) ∧
    cgiCollect cgiCapacity [] env.cgi.reads = some got := by
  rw [cgiOutput] at h
  split_ifs at h with hg
  exact ⟨hg, h⟩

theorem buildResponseCgi_stages (h : cgiOutput env rp = some got)
    (hs : (cgiHeader req got.length).length ≤ maxHeaderBuf - 1) :
    Stages (buildResponseCgi env round c rp req) (cgiHeader req got.length) got ∧
      (buildResponseCgi env round c rp req).client.bodyLen = got.length := by
  obtain ⟨⟨hflag, hpipe, hquery, hfork, hmalloc, hwait, hexit, hout⟩, hread⟩ := cgiOutput_some h
  have hlong : ¬ pathMax < rp.queryString.length := by omega
  have hwhole : snprintf maxHeaderBuf (cgiHeader req got.length) = cgiHeader req got.length :=
    List.take_of_length_le hs
  simp only [buildResponseCgi, hflag, hpipe, hlong, hfork, hmalloc, hread, hwait, hexit, hout,
    hwhole, Bool.true_eq_false, if_false, ne_eq, not_true]
  exact ⟨⟨rfl, rfl, rfl, rfl⟩, trivial⟩

theorem buildResponseCgi_fails (h : cgiOutput env rp = none) (hp : rp.pathType = .isCgi) :
    (buildResponseCgi env round c rp req).ret = -1 ∧
      (buildResponseCgi env round c rp req).client.respVal = failCode env rp := by
  simp only [buildResponseCgi, failCode, hp]
  by_cases hflag : env.flags.c = false
  · simp [hflag]
  by_cases hpipe : env.cgi.pipe = false
  · simp [hflag, hpipe]
  by_cases hquery : pathMax < rp.queryString.length
  · simp [hflag, hpipe, hquery]
  by_cases hfork : env.cgi.fork = false
  · simp [hflag, hpipe, hquery, hfork]
  by_cases hmalloc : env.cgi.malloc = false
  · simp [hflag, hpipe, hquery, hfork, hmalloc]
  cases hread : cgiCollect cgiCapacity [] env.cgi.reads with
  | none => simp [hflag, hpipe, hquery, hfork, hmalloc]
  | some got =>
    by_cases hwait : env.cgi.waitpid = false
    · simp [hflag, hpipe, hquery, hfork, hmalloc, hwait]
    by_cases hexit : env.cgi.status = .exited 0
    · by_cases hout : env.cgi.outMalloc = false
      · simp [hflag, hpipe, hquery, hfork, hmalloc, hwait, hexit, hout]
      · -- every call is granted, so there is an output
        rw [Bool.not_eq_false] at hflag hpipe hfork hmalloc hwait hout
        rw [cgiOutput, if_pos ⟨hflag, hpipe, Nat.le_of_not_lt hquery, hfork, hmalloc, hwait, hexit,
          hout⟩, hread] at h
        cases h
    · simp [hflag, hpipe, hquery, hfork, hmalloc, hwait, hexit]

theorem dirBody_length (dirPath : Bytes) (ds : List Dirent) :
    (dirBody dirPath ds).length = startHtmlString.length + endHtmlString.length +
      if 0 < (dirList dirPath ds).length then (dirList dirPath ds).length
      else emptyDirHtml.length := by
  simp only [dirBody, List.length_append]
  split_ifs <;> omega

/-- What is sent of a body: nothing to a `HEAD` request. -/
def sentBody (req : Request) (body : Bytes) : Bytes := if req.method = .head then [] else body

theorem buildResponseDir_stages (h : dirDelivery env rp req = some (header, body))
    (hp : rp.pathType = .isDir) :
    Stages (buildResponseDir env round c rp req) header (sentBody req body) ∧
      (req.method ≠ .head →
        (buildResponseDir env round c rp req).client.bodyLen = body.length) := by
  simp only [dirDelivery] at h
  split at h
  · rename_i node modTime hopen htime
    split_ifs at h with hstreams
    cases h
    have hbody := hstreams.1
    have hout := hstreams.2
    have hlist : ∀ header : Bytes, header ++ startHtmlString ++
        (if 0 < (dirList (req.path.drop 1) (env.readdir node)).length then
          dirList (req.path.drop 1) (env.readdir node) else emptyDirHtml) ++ endHtmlString =
        header ++ dirBody (req.path.drop 1) (env.readdir node) := by
      intro header
      simp only [dirBody, List.append_assoc]
    by_cases hm : req.method = .head
    · simp only [buildResponseDir, hp, hopen, htime, hbody, hout, ne_eq, not_true, if_false,
        Bool.true_eq_false, ← dirBody_length, sentBody, hm, if_true]
      exact ⟨⟨rfl, by rw [List.append_nil], rfl, (Nat.add_zero _).symm⟩, fun h => h.elim⟩
    · simp only [buildResponseDir, hp, hopen, htime, hbody, hout, ne_eq, not_true, if_false,
        Bool.true_eq_false, ← dirBody_length, sentBody, hm, hlist]
      exact ⟨⟨rfl, rfl, rfl, List.length_append⟩, fun _ => by simp⟩
  · cases h

theorem buildResponseDir_fails (h : dirDelivery env rp req = none) (hp : rp.pathType = .isDir) :
    (buildResponseDir env round c rp req).ret = -1 ∧
      (buildResponseDir env round c rp req).client.respVal = .resp500 := by
  simp only [buildResponseDir, hp, ne_eq, not_true, if_false]
  cases hopen : env.opendir (req.path.drop 1) with
  | error e => exact ⟨rfl, rfl⟩
  | ok node =>
    by_cases hbody : env.bodyStream = false
    · simp [hbody]
    cases htime : env.gmtime rp.lastMod with
    | none => simp [hbody]
    | some modTime =>
      by_cases hout : env.outStream = false
      · simp [hbody, hout]
      · rw [Bool.not_eq_false] at hbody hout
        simp only [dirDelivery, hopen, htime, hbody, hout, and_self, if_true] at h
        cases h

theorem buildResponseFile_stages (h : fileDelivery env rp req = some (header, body)) :
    Stages (buildResponseFile env round c rp req) header (sentBody req body) ∧
      (req.method ≠ .head →
        (buildResponseFile env round c rp req).client.bodyLen = body.length) := by
  simp only [fileDelivery] at h
  split at h
  · rename_i modTime htime
    split_ifs at h with hout
    cases h
    by_cases hm : req.method = .head
    · simp only [buildResponseFile, htime, hout, if_false, Bool.true_eq_false, sentBody, hm, if_true]
      exact ⟨⟨rfl, by rw [List.append_nil], rfl, (Nat.add_zero _).symm⟩, fun h => absurd rfl h⟩
    · simp only [buildResponseFile, htime, hout, if_false, Bool.true_eq_false, sentBody, hm]
      exact ⟨⟨rfl, rfl, rfl, List.length_append⟩, fun _ => by simp⟩
  · cases h

theorem buildResponseFile_fails (h : fileDelivery env rp req = none)
    (hc : c.respVal = .resp200) : (buildResponseFile env round c rp req).ret = -1 ∧
      ((buildResponseFile env round c rp req).client.respVal = .resp200 ∨
        (buildResponseFile env round c rp req).client.respVal = .resp500) := by
  simp only [buildResponseFile]
  cases htime : env.gmtime rp.lastMod with
  | none => exact ⟨rfl, Or.inr rfl⟩
  | some modTime =>
    by_cases hout : env.outStream = false
    · simp only [hout, if_true]
      exact ⟨trivial, Or.inl hc⟩
    · rw [Bool.not_eq_false] at hout
      simp only [fileDelivery, htime, hout, if_true] at h
      cases h

/-- Nothing is left out of a script's output, whatever the method. -/
def scriptBody (req : Request) (rp : ResolvedPath) (body : Bytes) : Bytes :=
  if rp.pathType = .isCgi then body else sentBody req body

theorem buildByType_stages (h : delivery env rp req = some (header, body))
    (hs : rp.pathType = .isCgi → header.length ≤ maxHeaderBuf - 1) :
    Stages (buildByType env round c rp req) header (scriptBody req rp body) ∧
      (req.method ≠ .head → (buildByType env round c rp req).client.bodyLen = body.length) := by
  cases hp : rp.pathType with
  | isCgi =>
    simp only [delivery, hp, Option.map_eq_some_iff] at h
    obtain ⟨got, hgot, heq⟩ := h
    cases heq
    simp only [buildByType, hp, scriptBody, if_true]
    have hst : Stages (buildResponseCgi env round c rp req) _ _ ∧ _ :=
      buildResponseCgi_stages hgot (hs hp)
    exact ⟨hst.1, fun _ => hst.2⟩
  | isDir =>
    simp only [delivery, hp] at h
    simp only [buildByType, hp, scriptBody, reduceCtorEq, if_false]
    exact buildResponseDir_stages h hp
  | isFile =>
    simp only [delivery, hp] at h
    simp only [buildByType, hp, scriptBody, reduceCtorEq, if_false]
    exact buildResponseFile_stages h
  | unknown =>
    simp only [delivery, hp] at h
    cases h

theorem buildByType_fails (h : delivery env rp req = none) (hp : rp.pathType ≠ .unknown)
    (hc : c.respVal = .resp200) : (buildByType env round c rp req).ret = -1 ∧
      (resetForError (buildByType env round c rp req).client).respVal = failCode env rp := by
  cases ht : rp.pathType with
  | isCgi =>
    simp only [delivery, ht, Option.map_eq_none_iff] at h
    obtain ⟨hret, hcode⟩ : (buildResponseCgi env round c rp req).ret = -1 ∧ _ :=
      buildResponseCgi_fails h ht
    have hne : failCode env rp ≠ .resp200 := by
      simp only [failCode, ht]
      split_ifs <;> decide
    simp only [buildByType, ht, resetForError, hcode, hne, if_false]
    exact ⟨hret, trivial⟩
  | isDir =>
    simp only [delivery, ht] at h
    obtain ⟨hret, hcode⟩ : (buildResponseDir env round c rp req).ret = -1 ∧ _ :=
      buildResponseDir_fails h ht
    simp only [buildByType, ht, resetForError, hcode, failCode]
    exact ⟨hret, rfl⟩
  | isFile =>
    simp only [delivery, ht] at h
    obtain ⟨hret, hcode⟩ : (buildResponseFile env round c rp req).ret = -1 ∧ _ :=
      buildResponseFile_fails h hc
    simp only [buildByType, ht, resetForError, failCode]
    rcases hcode with hcode | hcode
    · rw [hcode]
      exact ⟨hret, rfl⟩
    · rw [hcode]
      exact ⟨hret, rfl⟩
  | unknown => exact absurd ht hp

theorem buildErrorResponse_ret (h : (buildErrorResponse env round c req).ret = 0) :
    c.respVal.isError = true ∧ env.errorStream = true := by
  simp only [buildErrorResponse] at h
  split_ifs at h with hr hs
  · cases h
  · cases h
  all_goals
    refine ⟨?_, by simpa using hs⟩
    simp only [ClientResponse.isError, decide_eq_true_eq]
    omega

theorem buildErrorResponse_stages (h : (buildErrorResponse env round c req).ret = 0) :
    Stages (buildErrorResponse env round c req) (errorDelivery req c.respVal).1
        (sentBody req (errorDelivery req c.respVal).2) ∧
      (buildErrorResponse env round c req).client.bodyLen = (errorDelivery req c.respVal).2.length := by
  obtain ⟨hcode, hs⟩ := buildErrorResponse_ret h
  rw [buildErrorResponse, if_neg (isError_range hcode), if_neg (by simp [hs])]
  by_cases hm : req.method = .head
  · simp only [hm, if_true, sentBody, errorDelivery]
    exact ⟨⟨rfl, by rw [List.append_nil], rfl, (Nat.add_zero _).symm⟩, trivial⟩
  · simp only [hm, if_false, sentBody, errorDelivery]
    exact ⟨⟨rfl, rfl, rfl, List.length_append⟩, by simp⟩

theorem buildOkayResponse_delivered (h : delivery env rp req = some (header, body))
    (hs : rp.pathType = .isCgi → header.length ≤ maxHeaderBuf - 1) :
    Stages (buildOkayResponse env round c rp req) header (scriptBody req rp body) ∧
      (req.method ≠ .head →
        (buildOkayResponse env round c rp req).client.bodyLen = body.length) := by
  have hb : Stages (buildByType env round { c with respVal := .resp200 } rp req) _ _ ∧ _ :=
    buildByType_stages h hs
  have hret : ¬ (buildByType env round { c with respVal := .resp200 } rp req).ret < 0 := by
    rw [hb.1.ret]
    decide
  simp only [buildOkayResponse, hret, if_false]
  exact hb

theorem buildOkayResponse_fails (round : ℕ) (c : Client) (h : delivery env rp req = none)
    (hp : rp.pathType ≠ .unknown) :
    ∃ b : Client, b.respVal = failCode env rp ∧
      (buildOkayResponse env round c rp req).ret = (buildErrorResponse env round b req).ret ∧
      (buildOkayResponse env round c rp req).client =
        (buildErrorResponse env round b req).client := by
  obtain ⟨hret, hcode⟩ :
      (buildByType env round { c with respVal := .resp200 } rp req).ret = -1 ∧ _ :=
    buildByType_fails h hp rfl
  have hneg : (buildByType env round { c with respVal := .resp200 } rp req).ret < 0 := by
    rw [hret]
    decide
  refine ⟨_, hcode, ?_, ?_⟩
  · simp only [buildOkayResponse, hneg, if_true]
  · simp only [buildOkayResponse, hneg, if_true]

theorem buildOkayResponse_failed (h : delivery env rp req = none) (hp : rp.pathType ≠ .unknown)
    (hr : (buildOkayResponse env round c rp req).ret = 0) :
    Stages (buildOkayResponse env round c rp req) (errorDelivery req (failCode env rp)).1
        (sentBody req (errorDelivery req (failCode env rp)).2) ∧
      (buildOkayResponse env round c rp req).client.bodyLen =
        (errorDelivery req (failCode env rp)).2.length := by
  obtain ⟨b, hcode, hret, hclient⟩ := buildOkayResponse_fails round c h hp
  rw [hret] at hr
  obtain ⟨hst, hlen⟩ := buildErrorResponse_stages hr
  rw [hcode] at hst hlen
  refine ⟨⟨hret.trans hr, ?_, ?_, ?_⟩, ?_⟩
  · rw [hclient, hst.outBuf]
  · rw [hclient, hst.headerLen]
  · rw [hclient, hst.outputLength]
  · rw [hclient, hlen]

theorem buildErrorResponse_ret_iff (h : c.respVal.isError = true) :
    (buildErrorResponse env round c req).ret = 0 ↔ env.errorStream = true := by
  refine ⟨fun hr => (buildErrorResponse_ret hr).2, fun hs => ?_⟩
  rw [buildErrorResponse, if_neg (isError_range h), if_neg (by simp [hs])]
  simp only
  split <;> rfl

theorem failCode_isError (env : Env) (rp : ResolvedPath) : (failCode env rp).isError = true := by
  simp only [failCode]
  repeat' split
  all_goals rfl

theorem buildOkayResponse_ret_iff (h : delivery env rp req = none) (hp : rp.pathType ≠ .unknown) :
    (buildOkayResponse env round c rp req).ret = 0 ↔ env.errorStream = true := by
  obtain ⟨b, hcode, hret, -⟩ := buildOkayResponse_fails round c h hp
  rw [hret]
  apply buildErrorResponse_ret_iff
  rw [hcode]
  exact failCode_isError env rp

theorem buildErrorResponse_unstaged (hc : c.outBuf = none) :
    (buildErrorResponse env round c req).ret = 0 ∨
      (buildErrorResponse env round c req).client.outBuf = none := by
  simp only [buildErrorResponse]
  split_ifs
  all_goals first | exact Or.inl rfl | exact Or.inr hc

theorem buildByType_unstaged (hc : c.outBuf = none) :
    (buildByType env round c rp req).ret = 0 ∨
      (buildByType env round c rp req).client.outBuf = none := by
  simp only [buildByType, buildResponseCgi, buildResponseDir, buildResponseFile]
  repeat' split
  all_goals first | exact Or.inl rfl | exact Or.inr hc | exact Or.inr rfl

theorem buildOkayResponse_unstaged (hc : c.outBuf = none) :
    (buildOkayResponse env round c rp req).ret = 0 ∨
      (buildOkayResponse env round c rp req).client.outBuf = none := by
  have hb : (buildByType env round { c with respVal := .resp200 } rp req).ret = 0 ∨
      (buildByType env round { c with respVal := .resp200 } rp req).client.outBuf = none :=
    buildByType_unstaged hc
  simp only [buildOkayResponse]
  split
  · rename_i hneg
    have hnone := hb.resolve_left fun h0 => by
      rw [h0] at hneg
      cases hneg
    exact buildErrorResponse_unstaged hnone
  · exact hb

end Builders

section Requests

variable (env : Env) (round : ℕ) (c : Client) (buf : Bytes)

def built : BuildResult :=
  if (parsed env c buf).ret = 0 then
    if (resolved env round c buf).ret = 0 then
      buildOkayResponse env round (resolved env round c buf).client (resolved env round c buf).rp
        (parsed env c buf).out
    else buildErrorResponse env round (resolved env round c buf).client (parsed env c buf).out
  else
    buildErrorResponse env round { c with respVal := (parsed env c buf).resp }
      (parsed env c buf).out

/-- Header and body of the answer. -/
def response : Bytes × Bytes :=
  if (parsed env c buf).ret = 0 then
    if (resolved env round c buf).ret = 0 then
      (delivery env (resolved env round c buf).rp (parsed env c buf).out).getD
        (errorDelivery (parsed env c buf).out (failCode env (resolved env round c buf).rp))
    else errorDelivery (parsed env c buf).out (resolved env round c buf).client.respVal
  else errorDelivery (parsed env c buf).out (parsed env c buf).resp

def FromScript : Prop :=
  (parsed env c buf).ret = 0 ∧ (resolved env round c buf).ret = 0 ∧
    (resolved env round c buf).rp.pathType = .isCgi ∧
    (cgiOutput env (resolved env round c buf).rp).isSome = true

instance : Decidable (FromScript env round c buf) := inferInstanceAs (Decidable (_ ∧ _ ∧ _ ∧ _))

variable {env round c buf}

theorem respond_built : (respond env round c buf).client = (built env round c buf).client := by
  by_cases hp : (parsed env c buf).ret = 0
  · by_cases hr : (resolved env round c buf).ret = 0
    · rw [respond_found hp hr, built, if_pos hp, if_pos hr]
    · rw [respond_unresolved hp hr, built, if_pos hp, if_neg hr]
  · rw [respond_refused hp, built, if_neg hp]

theorem parsed_time : (parsed env c buf).out.timeReceived = [] ∨
    (parsed env c buf).out.timeReceived = env.timeReceived.text := by
  have hline : ∀ line out resp le,
      (parseLine line out resp le).out.timeReceived = out.timeReceived := by
    intro line out resp le
    simp only [parseLine, checkRequest, determined400]
    split
    · split_ifs <;> rfl
    · rfl
  simp only [parsed, parseRequest]
  split
  · exact Or.inl rfl
  · exact Or.inr (hline _ _ _ _)

theorem cgiHeader_length {req : Request} {len : ℕ}
    (hd : req.timeReceived.length < timeReceivedLength) (hl : len < 2 ^ 64) :
    (cgiHeader req len).length ≤ maxHeaderBuf - 1 := by
  have hdec := decimal_length (by decide) (show len < 10 ^ 20 by omega)
  have ht : timeReceivedLength = 32 := rfl
  have hmax : maxHeaderBuf = 750 := rfl
  have hfix : (cgiHeader req len).length =
      (cgiHeader .zero 0).length + req.timeReceived.length + (decimal len).length - 1 := by
    have h0 : (decimal 0).length = 1 := rfl
    have hz : Request.zero.timeReceived.length = 0 := rfl
    simp only [cgiHeader, field, List.length_append, h0, hz]
    omega
  have hempty : (cgiHeader .zero 0).length ≤ 200 := by decide +kernel
  omega

theorem parsed_time_short : (parsed env c buf).out.timeReceived.length < timeReceivedLength := by
  rcases parsed_time with h | h
  · rw [h]
    decide
  · rw [h]
    exact env.timeReceived.short

/-- The output of a script is counted in a `size_t`. -/
def OutputFits (env : Env) : Prop :=
  ∀ got, cgiCollect cgiCapacity [] env.cgi.reads = some got → got.length < 2 ^ 64

theorem delivery_short (hfit : OutputFits env) {rp : ResolvedPath} {hb : Bytes × Bytes}
    (hd : delivery env rp (parsed env c buf).out = some hb) (hcgi : rp.pathType = .isCgi) :
    hb.1.length ≤ maxHeaderBuf - 1 := by
  simp only [delivery, hcgi, Option.map_eq_some_iff] at hd
  obtain ⟨got, hgot, rfl⟩ := hd
  exact cgiHeader_length parsed_time_short (hfit got (cgiOutput_some hgot).2)

theorem built_stages (hfit : OutputFits env) (h : (built env round c buf).ret = 0) :
    Stages (built env round c buf) (response env round c buf).1
      (if FromScript env round c buf then (response env round c buf).2
        else sentBody (parsed env c buf).out (response env round c buf).2) ∧
    ((parsed env c buf).out.method ≠ .head →
      (built env round c buf).client.bodyLen = (response env round c buf).2.length) := by
  by_cases hp : (parsed env c buf).ret = 0
  · by_cases hr : (resolved env round c buf).ret = 0
    · have hkind : (resolved env round c buf).rp.pathType ≠ .unknown :=
        (resolvePath_verdict env round _ _ _).decided hr
      simp only [built, response, FromScript, hp, hr, if_true, true_and] at h ⊢
      cases hd : delivery env (resolved env round c buf).rp (parsed env c buf).out with
      | some hb =>
        have hout : (resolved env round c buf).rp.pathType = .isCgi →
            (cgiOutput env (resolved env round c buf).rp).isSome = true := by
          intro hcgi
          simp only [delivery, hcgi, Option.map_eq_some_iff] at hd
          obtain ⟨got, hgot, -⟩ := hd
          rw [hgot]
          rfl
        have hsent : (if (resolved env round c buf).rp.pathType = .isCgi ∧
            (cgiOutput env (resolved env round c buf).rp).isSome = true then hb.2
            else sentBody (parsed env c buf).out hb.2) =
            scriptBody (parsed env c buf).out (resolved env round c buf).rp hb.2 := by
          by_cases hcgi : (resolved env round c buf).rp.pathType = .isCgi
          · rw [scriptBody, if_pos hcgi, if_pos ⟨hcgi, hout hcgi⟩]
          · rw [scriptBody, if_neg hcgi, if_neg fun hf => hcgi hf.1]
        simp only [Option.getD_some, hsent]
        exact buildOkayResponse_delivered hd (delivery_short hfit hd)
      | none =>
        have hn : ¬ ((resolved env round c buf).rp.pathType = .isCgi ∧
            (cgiOutput env (resolved env round c buf).rp).isSome = true) := by
          rintro ⟨hcgi, hout⟩
          simp only [delivery, hcgi, Option.map_eq_none_iff] at hd
          rw [hd] at hout
          cases hout
        simp only [Option.getD_none, hn, if_false]
        have hst := buildOkayResponse_failed hd hkind h
        exact ⟨hst.1, fun _ => hst.2⟩
    · have hn : ¬ FromScript env round c buf := fun hf => hr hf.2.1
      simp only [built, response, hp, hr, hn, if_true, if_false] at h ⊢
      have hst := buildErrorResponse_stages h
      exact ⟨hst.1, fun _ => hst.2⟩
  · have hn : ¬ FromScript env round c buf := fun hf => hp hf.1
    simp only [built, response, hp, hn, if_false] at h ⊢
    have hst := buildErrorResponse_stages h
    exact ⟨hst.1, fun _ => hst.2⟩

theorem built_ret_iff (hfit : OutputFits env) :
    (built env round c buf).ret = 0 ↔ env.errorStream = true ∨
      (parsed env c buf).ret = 0 ∧ (resolved env round c buf).ret = 0 ∧
        (delivery env (resolved env round c buf).rp (parsed env c buf).out).isSome = true := by
  have hv : ResolveVerdict _ (resolved env round c buf) := resolvePath_verdict env round _ _ _
  by_cases hp : (parsed env c buf).ret = 0
  · by_cases hr : (resolved env round c buf).ret = 0
    · simp only [built, hp, hr, if_true, true_and]
      cases hd : delivery env (resolved env round c buf).rp (parsed env c buf).out with
      | some hb =>
        have hst : Stages (buildOkayResponse env round (resolved env round c buf).client
            (resolved env round c buf).rp (parsed env c buf).out) _ _ ∧ _ :=
          buildOkayResponse_delivered hd (delivery_short hfit hd)
        simp [hst.1.ret]
      | none =>
        simp only [Option.isSome_none, Bool.false_eq_true, or_false]
        exact buildOkayResponse_ret_iff hd (hv.decided hr)
    · simp only [built, hp, hr, if_true, if_false, false_and, and_false, or_false]
      exact buildErrorResponse_ret_iff (hv.failed hr)
  · simp only [built, hp, if_false, false_and, or_false]
    exact buildErrorResponse_ret_iff (parseRequest_error hp)

theorem built_unstaged (h : (built env round c buf).ret ≠ 0) (hc : c.outBuf = none) :
    (built env round c buf).client.outBuf = none := by
  have hf : ResolveFrame _ (resolved env round c buf).client := resolvePath_frame env round _ _ _
  have hnone : (resolved env round c buf).client.outBuf = none := by
    rw [hf.eq]
    exact hc
  by_cases hp : (parsed env c buf).ret = 0
  · by_cases hr : (resolved env round c buf).ret = 0
    · simp only [built, hp, hr, if_true] at h ⊢
      exact (buildOkayResponse_unstaged hnone).resolve_left h
    · simp only [built, hp, hr, if_true, if_false] at h ⊢
      exact (buildErrorResponse_unstaged hnone).resolve_left h
  · simp only [built, hp, if_false] at h ⊢
    have hrefused : ({ c with respVal := (parsed env c buf).resp } : Client).outBuf = none := hc
    exact (buildErrorResponse_unstaged hrefused).resolve_left h

end Requests

end SimpleServer
