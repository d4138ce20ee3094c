import SimpleServer.BuildOutcomes
import SimpleServer.Lib.Ledger

/-!
# What a builder leaves behind

Every pipe end, child, `DIR`, memory stream and heap block that is taken while
a response is built is entered in a ledger under its name. `build_response_dir`
and `build_response_file` settle it on every exit. `build_response_cgi` does
not: its response is copied and never freed, a child is only waited for after
its output has been read to the end, and the check of the query's length comes
after `pipe`. Of the response itself nothing is left behind: a builder that
fails has written members of the client, and the error response that replaces
it is the one a client fresh from `accept` would get.
-/

namespace SimpleServer

open CString FileTree Ledger

def Event.resource : Event → Option (Ledger.Entry Resource)
  | .acquire r => some (.take r)
  | .release r => some (.give r)
  | _ => none

def resources (ev : List Event) : List (Ledger.Entry Resource) := ev.filterMap Event.resource

section Resources

variable {ev ev' : List Event} {r : Resource}

@[simp] theorem resources_nil : resources [] = [] := rfl

@[simp] theorem resources_append : resources (ev ++ ev') = resources ev ++ resources ev' :=
  List.filterMap_append

@[simp] theorem resources_acquire : resources (.acquire r :: ev) = .take r :: resources ev := rfl

@[simp] theorem resources_release : resources (.release r :: ev) = .give r :: resources ev := rfl

@[simp] theorem resources_execvp (call : ExecCall) :
    resources (.execvp call :: ev) = resources ev := rfl

@[simp] theorem resources_opendir (path : Bytes) :
    resources (.opendir path :: ev) = resources ev := rfl

end Resources

/-- Everything taken has been given back once, except the block that is now
the client's `out_buf`. -/
structure BooksSettled (round : ℕ) (b : BuildResult) : Prop where
  books : ∃ held, replay [] (resources b.events) = some held ∧
    (b.client.outBuf = none → held = []) ∧
    (b.client.outBuf.isSome = true → ∃ s, (s = .outBuf ∨ s = .errorBuf) ∧
      held = [.scratch round b.client.fd s])

/-- The script's output is read to its end: no enlargement that is needed is
refused, and no `read` fails for another reason than a signal. Of the chunks
only the lengths matter. -/
def ReadsToEnd (capacity filled : ℕ) : List (Bool × ReadResult) → Prop
  | [] => True
  | (grow, r) :: rest =>
    (filled = capacity → grow = true) ∧
      let capacity := if filled = capacity then capacity * 2 else capacity
      match r with
      | .data _ bs => ReadsToEnd capacity (filled + min (bs.length + 1) (capacity - filled)) rest
      | .eof => True
      | .fail e => e = .EINTR ∧ ReadsToEnd capacity filled rest

/-- A request that is answered by a script, if at all, is refused before
anything is taken, or fails after the child has been waited for. -/
def SettlesScript (env : Env) (rp : ResolvedPath) : Prop :=
  rp.pathType = .isCgi → env.flags.c = true → env.cgi.pipe = true →
    rp.queryString.length ≤ pathMax ∧
      (env.cgi.fork = true → env.cgi.malloc = true ∧ ReadsToEnd cgiCapacity 0 env.cgi.reads ∧
        env.cgi.waitpid = true ∧ ¬ (env.cgi.status = .exited 0 ∧ env.cgi.outMalloc = true))

/-- What is still held at each exit of `build_response_cgi`, the last taken first. -/
def cgiLeft (env : Env) (rp : ResolvedPath) : List Scratch :=
  if env.flags.c = false ∨ env.cgi.pipe = false then []
  else if pathMax < rp.queryString.length then [.pipeWrite, .pipeRead]
  else if env.cgi.fork = false then []
  else if env.cgi.malloc = false then [.child]
  else if (cgiCollect cgiCapacity [] env.cgi.reads).isNone then [.child]
  else if env.cgi.waitpid = false then [.child]
  else if env.cgi.status = .exited 0 ∧ env.cgi.outMalloc = true then [.outBuf, .cgiResponse]
  else []

section Builders

variable {env : Env} {round : ℕ} {c : Client} {rp : ResolvedPath} {req : Request}

theorem cgiCollect_isSome (capacity : ℕ) (got : Bytes) (reads : List (Bool × ReadResult)) :
    (cgiCollect capacity got reads).isSome = true ↔ ReadsToEnd capacity got.length reads := by
  induction reads generalizing capacity got with
  | nil => simp [cgiCollect, ReadsToEnd]
  | cons x reads ih =>
    obtain ⟨grow, r⟩ := x
    by_cases hfull : got.length = capacity ∧ grow = false
    · simp [cgiCollect, ReadsToEnd, hfull]
    · have hgrow : got.length = capacity → grow = true := by
        intro hl
        by_contra hg
        exact hfull ⟨hl, by simpa using hg⟩
      simp only [cgiCollect, ReadsToEnd, hfull, if_false]
      rw [and_iff_right hgrow]
      cases r with
      | data b bs =>
        rw [ih, List.length_append, List.length_take, List.length_cons, Nat.min_comm]
      | eof => simp
      | fail e =>
        by_cases he : e = .EINTR
        · simp only [he, if_true, true_and]
          exact ih _ _
        · simp [he]

theorem buildResponseCgi_left :
    replay [] (resources (buildResponseCgi env round c rp req).events) =
      some ((cgiLeft env rp).map (.scratch round c.fd)) := by
  by_cases hc : env.flags.c = false
  · simp [buildResponseCgi, cgiLeft, hc, replay]
  by_cases hp : env.cgi.pipe = false
  · simp [buildResponseCgi, cgiLeft, hc, hp, replay]
  by_cases hq : pathMax < rp.queryString.length
  · simp [buildResponseCgi, cgiLeft, hc, hp, hq, replay, post]
  by_cases hf : env.cgi.fork = false
  · simp [buildResponseCgi, cgiLeft, hc, hp, hq, hf, replay, post]
  by_cases hm : env.cgi.malloc = false
  · simp [buildResponseCgi, cgiLeft, hc, hp, hq, hf, hm, replay, post]
  cases hg : cgiCollect cgiCapacity [] env.cgi.reads with
  | none => simp [buildResponseCgi, cgiLeft, hc, hp, hq, hf, hm, hg, replay, post]
  | some got =>
    by_cases hw : env.cgi.waitpid = false
    · simp [buildResponseCgi, cgiLeft, hc, hp, hq, hf, hm, hg, hw, replay, post]
    by_cases hs : env.cgi.status = .exited 0
    · by_cases ho : env.cgi.outMalloc = false
      · simp [buildResponseCgi, cgiLeft, hc, hp, hq, hf, hm, hg, hw, hs, ho, replay, post]
      · simp [buildResponseCgi, cgiLeft, hc, hp, hq, hf, hm, hg, hw, hs, ho, replay, post]
    · simp [buildResponseCgi, cgiLeft, hc, hp, hq, hf, hm, hg, hw, hs, replay, post]

/-- How a builder ends: with a failure and no response, with a response, or,
for a path of unknown type, with neither. -/
structure Leaves (round fd : ℕ) (b : BuildResult) (left : List Scratch) : Prop where
  books : replay [] (resources b.events) = some (left.map (.scratch round fd))
  foreign : .errorStream ∉ left ∧ .errorBuf ∉ left
  ends : (b.ret = -1 ∧ b.client.outBuf = none ∧ .outBuf ∉ left) ∨
    (b.ret = 0 ∧ b.client.outBuf.isSome = true ∧ .outBuf ∈ left) ∨
    (b.ret = 0 ∧ b.client.outBuf = none ∧ left = [])

theorem cgiLeft_of_output {got : Bytes} (h : cgiOutput env rp = some got) :
    cgiLeft env rp = [.outBuf, .cgiResponse] := by
  obtain ⟨⟨hc, hp, hq, hf, hm, hw, hs, ho⟩, hg⟩ := cgiOutput_some h
  simp [cgiLeft, hc, hp, Nat.not_lt.mpr hq, hf, hm, hg, hw, hs, ho]

theorem cgiLeft_of_failure (h : cgiOutput env rp = none) : .outBuf ∉ cgiLeft env rp := by
  intro hm
  simp only [cgiLeft] at hm
  split_ifs at hm with hc hq hf hmal hg hw hs
  · simp at hm
  · simp at hm
  · simp at hm
  · simp at hm
  · simp at hm
  · simp at hm
  · -- everything was granted, so there is an output
    rw [not_or, Bool.not_eq_false, Bool.not_eq_false] at hc
    rw [Bool.not_eq_false] at hf hmal hw
    rw [cgiOutput, if_pos ⟨hc.1, hc.2, Nat.le_of_not_lt hq, hf, hmal, hw, hs.1, hs.2⟩] at h
    rw [h] at hg
    exact hg rfl
  · simp at hm

theorem buildResponseCgi_leaves (hp : rp.pathType = .isCgi) (hc : c.outBuf = none) :
    Leaves round c.fd (buildResponseCgi env round c rp req) (cgiLeft env rp) := by
  refine ⟨buildResponseCgi_left, ?_, ?_⟩
  · simp only [cgiLeft]
    split_ifs <;> simp
  · cases ho : cgiOutput env rp with
    | none =>
      have hret : (buildResponseCgi env round c rp req).ret = -1 := (buildResponseCgi_fails ho hp).1
      have hnone : (buildByType env round c rp req).ret = 0 ∨
          (buildByType env round c rp req).client.outBuf = none := buildByType_unstaged hc
      simp only [buildByType, hp] at hnone
      refine Or.inl ⟨hret, hnone.resolve_left ?_, cgiLeft_of_failure ho⟩
      rw [hret]
      decide
    | some got =>
      obtain ⟨⟨hflag, hpipe, hquery, hfork, hmalloc, hwait, hexit, hout⟩, hread⟩ :=
        cgiOutput_some ho
      refine Or.inr (Or.inl ?_)
      rw [cgiLeft_of_output ho]
      simp [buildResponseCgi, hflag, hpipe, Nat.not_lt.mpr hquery, hfork, hmalloc, hread, hwait,
        hexit, hout]

theorem buildResponseDir_leaves (hc : c.outBuf = none) :
    ∃ left, Leaves round c.fd (buildResponseDir env round c rp req) left ∧
      (left = [] ∨ left = [.outBuf]) := by
  have hfail : ∀ ev, replay [] (resources ev) = some [] →
      Leaves round c.fd ⟨-1, { c with respVal := .resp500 }, ev⟩ [] := fun ev hev =>
    ⟨hev, by simp, Or.inl ⟨rfl, hc, by simp⟩⟩
  simp only [buildResponseDir]
  split
  · exact ⟨[], hfail _ rfl, Or.inl rfl⟩
  split
  · exact ⟨[], hfail _ rfl, Or.inl rfl⟩
  split
  · exact ⟨[], hfail _ (by simp [replay, post]), Or.inl rfl⟩
  split
  · exact ⟨[], hfail _ (by simp [replay, post]), Or.inl rfl⟩
  split
  · exact ⟨[], hfail _ (by simp [replay, post]), Or.inl rfl⟩
  split
  · exact ⟨[.outBuf], ⟨by simp [replay, post], by simp, Or.inr (Or.inl ⟨rfl, rfl, by simp⟩)⟩,
      Or.inr rfl⟩
  · exact ⟨[.outBuf], ⟨by simp [replay, post], by simp, Or.inr (Or.inl ⟨rfl, rfl, by simp⟩)⟩,
      Or.inr rfl⟩

theorem buildResponseFile_leaves (hc : c.outBuf = none) :
    ∃ left, Leaves round c.fd (buildResponseFile env round c rp req) left ∧
      (left = [] ∨ left = [.outBuf]) := by
  have hfail : ∀ r : ClientResponse,
      Leaves round c.fd ⟨-1, { c with respVal := r }, []⟩ [] := fun r =>
    ⟨rfl, by simp, Or.inl ⟨rfl, hc, by simp⟩⟩
  simp only [buildResponseFile]
  split
  · exact ⟨[], hfail _, Or.inl rfl⟩
  split_ifs with hs hm
  · exact ⟨[], hfail _, Or.inl rfl⟩
  · exact ⟨[.outBuf], ⟨by simp [replay, post], by simp, Or.inr (Or.inl ⟨rfl, rfl, by simp⟩)⟩,
      Or.inr rfl⟩
  · exact ⟨[.outBuf], ⟨by simp [replay, post], by simp, Or.inr (Or.inl ⟨rfl, rfl, by simp⟩)⟩,
      Or.inr rfl⟩

theorem settlesScript_iff (hp : rp.pathType = .isCgi) :
    SettlesScript env rp ↔ cgiLeft env rp = [] ∨ cgiLeft env rp = [.outBuf] := by
  have hread := cgiCollect_isSome cgiCapacity [] env.cgi.reads
  by_cases hc : env.flags.c = false
  · simp [SettlesScript, cgiLeft, hc]
  by_cases hpipe : env.cgi.pipe = false
  · simp [SettlesScript, cgiLeft, hpipe]
  by_cases hq : pathMax < rp.queryString.length
  · simp [SettlesScript, cgiLeft, hp, hc, hpipe, hq, Nat.not_le.mpr hq]
  by_cases hf : env.cgi.fork = false
  · simp [SettlesScript, cgiLeft, hc, hpipe, hq, hf, Nat.le_of_not_lt hq]
  by_cases hm : env.cgi.malloc = false
  · simp [SettlesScript, cgiLeft, hp, hc, hpipe, hq, hf, hm]
  cases hg : cgiCollect cgiCapacity [] env.cgi.reads with
  | none =>
    have hr : ¬ ReadsToEnd cgiCapacity 0 env.cgi.reads := by
      intro hr
      rw [hg] at hread
      cases hread.mpr hr
    simp [SettlesScript, cgiLeft, hp, hc, hpipe, hq, hf, hm, hg, hr]
  | some got =>
    have hr : ReadsToEnd cgiCapacity 0 env.cgi.reads := by
      rw [hg] at hread
      exact hread.mp rfl
    by_cases hw : env.cgi.waitpid = false
    · simp [SettlesScript, cgiLeft, hp, hc, hpipe, hq, hf, hm, hg, hw]
    · by_cases hs : env.cgi.status = .exited 0 ∧ env.cgi.outMalloc = true
      · simp [SettlesScript, cgiLeft, hp, hc, hpipe, hq, hf, hm, hg, hw, hs]
      · simp [SettlesScript, cgiLeft, hc, hpipe, hq, hf, hm, hg, hw, hs, hr, Nat.le_of_not_lt hq]

theorem buildByType_leaves (hc : c.outBuf = none) :
    ∃ left, Leaves round c.fd (buildByType env round c rp req) left ∧
      (SettlesScript env rp ↔ left = [] ∨ left = [.outBuf]) := by
  have hother : rp.pathType ≠ .isCgi → SettlesScript env rp := fun hn hp => absurd hp hn
  cases hp : rp.pathType with
  | isCgi =>
    simp only [buildByType, hp]
    exact ⟨_, buildResponseCgi_leaves hp hc, settlesScript_iff hp⟩
  | isDir =>
    simp only [buildByType, hp]
    obtain ⟨left, hl, hsettled⟩ :
        ∃ left, Leaves round c.fd (buildResponseDir env round c rp req) left ∧ _ :=
      buildResponseDir_leaves hc
    exact ⟨left, hl, iff_of_true (hother (by simp [hp])) hsettled⟩
  | isFile =>
    simp only [buildByType, hp]
    obtain ⟨left, hl, hsettled⟩ :
        ∃ left, Leaves round c.fd (buildResponseFile env round c rp req) left ∧ _ :=
      buildResponseFile_leaves hc
    exact ⟨left, hl, iff_of_true (hother (by simp [hp])) hsettled⟩
  | unknown =>
    simp only [buildByType, hp]
    refine ⟨[], ⟨rfl, by simp, Or.inr (Or.inr ⟨rfl, hc, rfl⟩)⟩, ?_⟩
    exact iff_of_true (hother (by simp [hp])) (Or.inl rfl)

section Settling

variable {b : BuildResult} {left : List Scratch}

theorem settled_without_response (hb : b.client.outBuf = none)
    (h : replay [] (resources b.events) = some (left.map (.scratch round b.client.fd))) :
    BooksSettled round b ↔ left = [] := by
  constructor
  · rintro ⟨held, hheld, hnone, -⟩
    rw [h, hnone hb] at hheld
    simpa using hheld
  · rintro rfl
    exact ⟨[], h, fun _ => rfl, fun hs => by simp [hb] at hs⟩

theorem settled_with_response (hb : b.client.outBuf.isSome = true)
    (h : replay [] (resources b.events) = some (left.map (.scratch round b.client.fd))) :
    BooksSettled round b ↔ left = [.outBuf] ∨ left = [.errorBuf] := by
  constructor
  · rintro ⟨held, hheld, -, hsome⟩
    obtain ⟨s, hs, rfl⟩ := hsome hb
    rw [h, Option.some.injEq, ← List.map_singleton (f := Resource.scratch round b.client.fd)]
      at hheld
    have hinj : Function.Injective (Resource.scratch round b.client.fd) := by
      intro s s' he
      cases he
      rfl
    rw [hinj.list_map hheld]
    simpa using hs
  · intro hl
    refine ⟨left.map (.scratch round b.client.fd), h, fun hn => ?_, fun _ => ?_⟩
    · rw [hn] at hb
      cases hb
    · rcases hl with rfl | rfl
      · exact ⟨.outBuf, Or.inl rfl, rfl⟩
      · exact ⟨.errorBuf, Or.inr rfl, rfl⟩

end Settling

theorem buildErrorResponse_books {left : List Scratch} {ev : List Event} (hc : c.outBuf = none)
    (hbooks : replay [] (resources ev) = some (left.map (.scratch round c.fd)))
    (hforeign : .errorStream ∉ left ∧ .errorBuf ∉ left) :
    BooksSettled round { buildErrorResponse env round c req with
        events := ev ++ (buildErrorResponse env round c req).events } ↔ left = [] := by
  have hmade : replay [] (resources (ev ++ [.acquire (.scratch round c.fd .errorStream),
      .acquire (.scratch round c.fd .errorBuf), .release (.scratch round c.fd .errorStream)])) =
      some ((.errorBuf :: left).map (.scratch round c.fd)) := by
    rw [resources_append, replay_append_some hbooks]
    simp [replay, post, hforeign]
  have hbuf : left = [] ↔
      Scratch.errorBuf :: left = [.outBuf] ∨ Scratch.errorBuf :: left = [.errorBuf] := by
    simp
  simp only [buildErrorResponse]
  split
  · rw [List.append_nil]
    exact settled_without_response hc hbooks
  split
  · rw [List.append_nil]
    exact settled_without_response hc hbooks
  split
  · rw [hbuf]
    exact settled_with_response rfl hmade
  · rw [hbuf]
    exact settled_with_response rfl hmade

end Builders

/-- When `build_okay_response` returns, everything that was taken for the
response has been given back, if and only if no script was run, or one was
waited for and its output then given up. -/
theorem books_settled_iff (env : Env) (round : ℕ) (c : Client) (rp : ResolvedPath) (req : Request)
    (hc : c.outBuf = none) :
    BooksSettled round (buildOkayResponse env round c rp req) ↔ SettlesScript env rp := by
  obtain ⟨left, hl, hiff⟩ : ∃ left, Leaves round c.fd
      (buildByType env round { c with respVal := .resp200 } rp req) left ∧ _ :=
    buildByType_leaves (c := { c with respVal := .resp200 }) hc
  have hfd : (buildByType env round { c with respVal := .resp200 } rp req).client.fd = c.fd := by
    rw [(buildByType_frame env round { c with respVal := .resp200 } rp req).eq]
  rw [hiff, buildOkayResponse]
  generalize buildByType env round { c with respVal := .resp200 } rp req = b at hl hfd
  have hbooks := hl.books
  rw [← hfd] at hbooks
  rcases hl.ends with ⟨hret, hout, hno⟩ | ⟨hret, hout, hmem⟩ | ⟨hret, hout, hnil⟩
  · have hneg : b.ret < 0 := by
      rw [hret]
      decide
    have hleft : left = [] ↔ left = [] ∨ left = [.outBuf] := by
      refine ⟨Or.inl, fun h => h.resolve_right ?_⟩
      rintro rfl
      exact hno List.mem_cons_self
    simp only [hneg, if_true, hout, Option.isSome_none, Bool.false_eq_true, if_false,
      List.append_nil]
    rw [← hleft]
    exact buildErrorResponse_books (c := resetForError b.client) hout hbooks hl.foreign
  · have hpos : ¬ b.ret < 0 := by
      rw [hret]
      decide
    simp only [hpos, if_false]
    rw [settled_with_response hout hbooks]
    constructor
    · rintro (h | rfl)
      · exact Or.inr h
      · exact absurd List.mem_cons_self hl.foreign.2
    · rintro (rfl | h)
      · exact absurd hmem List.not_mem_nil
      · exact Or.inl h
  · have hpos : ¬ b.ret < 0 := by
      rw [hret]
      decide
    simp only [hpos, if_false]
    rw [settled_without_response hout hbooks]
    exact iff_of_true hnil (Or.inl hnil)

section Traces

variable {env : Env} {round : ℕ} {c c' : Client} {rp : ResolvedPath} {req : Request}

structure SameResponse (c c' : Client) : Prop where
  outBuf : c.outBuf = c'.outBuf
  outputLength : c.outputLength = c'.outputLength
  headerLen : c.headerLen = c'.headerLen
  bodyLen : c.bodyLen = c'.bodyLen
  outputSent : c.outputSent = c'.outputSent

theorem buildErrorResponse_same (hs : env.errorStream = true) (hcode : c.respVal.isError = true)
    (hv : c'.respVal = c.respVal) (hsent : c.outputSent = c'.outputSent) :
    SameResponse (buildErrorResponse env round c req).client
      (buildErrorResponse env round c' req).client := by
  have hcode' : c'.respVal.isError = true := hv ▸ hcode
  obtain ⟨hst, hlen⟩ := buildErrorResponse_stages ((buildErrorResponse_ret_iff hcode).mpr hs)
  obtain ⟨hst', hlen'⟩ := buildErrorResponse_stages ((buildErrorResponse_ret_iff hcode').mpr hs)
  rw [hv] at hst' hlen'
  constructor
  · rw [hst.outBuf, hst'.outBuf]
  · rw [hst.outputLength, hst'.outputLength]
  · rw [hst.headerLen, hst'.headerLen]
  · rw [hlen, hlen']
  · rw [(buildErrorResponse_frame env round c req).eq,
      (buildErrorResponse_frame env round c' req).eq]
    exact hsent

theorem buildErrorResponse_respVal :
    (buildErrorResponse env round c req).client.respVal = c.respVal := by
  simp only [buildErrorResponse]
  split_ifs <;> rfl

end Traces

/-- Wherever a builder fails, what is staged is the error response that a
freshly accepted client would get. -/
theorem failed_okay_leaves_no_trace (env : Env) (round : ℕ) (c : Client) (rp : ResolvedPath)
    (req : Request) (old : Client) (fd : ℕ) (hs : env.errorStream = true)
    (hsent : c.outputSent = 0)
    (hfail : (buildByType env round { c with respVal := .resp200 } rp req).ret < 0) :
    let b := buildOkayResponse env round c rp req
    b.client.respVal.isError = true ∧ b.client.respVal ≠ .resp200 ∧
      SameResponse b.client (buildErrorResponse env round
        { initClient old fd with respVal := b.client.respVal } req).client := by
  intro b
  have hp : rp.pathType ≠ .unknown := by
    intro hu
    simp only [buildByType, hu] at hfail
    cases hfail
  have hb : b.client = (buildErrorResponse env round (resetForError
      (buildByType env round { c with respVal := .resp200 } rp req).client) req).client := by
    simp only [b, buildOkayResponse, hfail, if_true]
  have hcode : (resetForError
      (buildByType env round { c with respVal := .resp200 } rp req).client).respVal.isError = true :=
    resetForError_isError (buildByType_verdict rfl hp) hfail
  have hzero : (resetForError
      (buildByType env round { c with respVal := .resp200 } rp req).client).outputSent = 0 := by
    rw [resetForError, (buildByType_frame env round { c with respVal := .resp200 } rp req).eq]
    exact hsent
  have hval : b.client.respVal = (resetForError
      (buildByType env round { c with respVal := .resp200 } rp req).client).respVal := by
    rw [hb, buildErrorResponse_respVal]
  rw [hval, hb]
  refine ⟨hcode, fun he => ?_, buildErrorResponse_same hs hcode rfl hzero⟩
  rw [he] at hcode
  cases hcode

section OneScript

def scriptRp : ResolvedPath := { ResolvedPath.zero with pathType := .isCgi }

def exitingEnv (code : ℕ) : Env :=
  { workingEnv with cgi := ⟨true, true, true,
      [(true, .data 104 []), (true, .fail .EINTR), (true, .data 105 []), (true, .eof)],
      true, .exited code, true⟩ }

theorem books_settled_iff_exit_one :
    blankClient.outBuf = none ∧
      BooksSettled 0 (buildOkayResponse (exitingEnv 1) 0 blankClient scriptRp .zero) := by
  refine ⟨rfl, (books_settled_iff (exitingEnv 1) 0 blankClient scriptRp .zero rfl).mpr
    fun _ _ _ => ⟨by decide, fun _ => ⟨rfl, ?_, rfl, ?_⟩⟩⟩
  · simp [exitingEnv, ReadsToEnd]
  · simp [exitingEnv]

theorem failed_okay_leaves_no_trace_exit_one :
    let b := buildOkayResponse (exitingEnv 1) 0 { blankClient with bodyLen := 7 } scriptRp .zero
    b.client.respVal = .resp500 ∧ SameResponse b.client (buildErrorResponse (exitingEnv 1) 0
      { initClient blankClient 9 with respVal := b.client.respVal } .zero).client := by
  intro b
  have h := failed_okay_leaves_no_trace (exitingEnv 1) 0 { blankClient with bodyLen := 7 }
    scriptRp .zero blankClient 9 rfl rfl (by decide +kernel)
  exact ⟨by decide +kernel, h.2.2⟩

theorem script_response_never_freed :
    let b := buildOkayResponse (exitingEnv 0) 0 blankClient scriptRp .zero
    b.ret = 0 ∧ b.client.outBuf.isSome = true ∧
      replay [] (resources b.events) = some [.scratch 0 0 .outBuf, .scratch 0 0 .cgiResponse] ∧
      ¬ BooksSettled 0 b := by
  intro b
  have hbooks : replay [] (resources b.events) =
      some [.scratch 0 0 .outBuf, .scratch 0 0 .cgiResponse] := by decide +kernel
  have hout : b.client.outBuf.isSome = true := by decide +kernel
  refine ⟨by decide +kernel, hout, hbooks, fun hb => ?_⟩
  obtain ⟨held, hheld, -, hsome⟩ := hb.books
  obtain ⟨s, -, rfl⟩ := hsome hout
  rw [hbooks] at hheld
  cases hheld

end OneScript

end SimpleServer
