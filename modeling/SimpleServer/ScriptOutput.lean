import SimpleServer.BuildLedger

/-!
# The loop that reads a script's output

`cgiStep` is one turn of the loop of `build_response_cgi` on its two variables,
and `cgiCollect` is the loop. The buffer is doubled when it is full before the
next `read` is made, so every `read` asks for at least one byte. What a script
that succeeds has written is staged behind the header, and what any other
script has written is not.
-/

namespace SimpleServer

open CString FileTree

def cgiGrown (capacity filled : ℕ) : ℕ := if filled = capacity then capacity * 2 else capacity

/-- The capacity and the bytes behind one turn; `none` where the loop is left. -/
def cgiStep (s : ℕ × Bytes) (x : Bool × ReadResult) : Option (ℕ × Bytes) :=
  if s.2.length = s.1 ∧ x.1 = false then none
  else
    let capacity := cgiGrown s.1 s.2.length
    match x.2 with
    | .data b bs => some (capacity, s.2 ++ (b :: bs).take (capacity - s.2.length))
    | .eof => none
    | .fail e => if e = .EINTR then some (capacity, s.2) else none

/-- The loop is still running behind these reads, with these variables. -/
def CgiRunning (reads : List (Bool × ReadResult)) (s : ℕ × Bytes) : Prop :=
  reads.foldlM cgiStep (cgiCapacity, []) = some s

structure BufferSound (s : ℕ × Bytes) : Prop where
  fits : s.2.length ≤ s.1
  doubled : ∃ k, s.1 = cgiCapacity * 2 ^ k

/-- Chunks of at least one byte and not more than was asked for, signals in
between, and the end of the output; every enlargement is granted. -/
def WellRead (capacity filled : ℕ) : List (Bool × ReadResult) → Prop
  | [] => False
  | (grow, r) :: rest =>
    (filled = capacity → grow = true) ∧
      match r with
      | .data _ bs => bs.length + 1 ≤ cgiGrown capacity filled - filled ∧
          WellRead (cgiGrown capacity filled) (filled + (bs.length + 1)) rest
      | .eof => True
      | .fail e => e = .EINTR ∧ WellRead (cgiGrown capacity filled) filled rest

def written : List (Bool × ReadResult) → Bytes
  | [] => []
  | (_, .data b bs) :: rest => (b :: bs) ++ written rest
  | (_, .eof) :: _ => []
  | (_, .fail _) :: rest => written rest

section Loop

variable {s s' : ℕ × Bytes} {x : Bool × ReadResult} {reads rest : List (Bool × ReadResult)}

theorem cgiCollect_cons (capacity : ℕ) (got : Bytes) :
    cgiCollect capacity got (x :: rest) =
      match cgiStep (capacity, got) x with
      | some s => cgiCollect s.1 s.2 rest
      | none => if ¬ (got.length = capacity ∧ x.1 = false) ∧ x.2 = .eof then some got else none := by
  obtain ⟨grow, r⟩ := x
  by_cases hfull : got.length = capacity ∧ grow = false
  · simp [cgiCollect, cgiStep, hfull]
  · simp only [cgiCollect, cgiStep, hfull, if_false]
    cases r with
    | data b bs => rfl
    | eof => simp
    | fail e =>
      by_cases he : e = .EINTR
      · simp only [he, if_true]
        rfl
      · simp [he]

theorem cgiCollect_running (h : reads.foldlM cgiStep s = some s') :
    cgiCollect s.1 s.2 (reads ++ rest) = cgiCollect s'.1 s'.2 rest := by
  induction reads generalizing s with
  | nil =>
    cases h
    rfl
  | cons x reads ih =>
    rw [List.foldlM_cons] at h
    obtain ⟨s₁, h1, h2⟩ := Option.bind_eq_some_iff.mp h
    rw [List.cons_append, cgiCollect_cons, h1]
    exact ih h2

theorem cgiGrown_room (h : BufferSound s) : s.2.length < cgiGrown s.1 s.2.length := by
  have hfit := h.fits
  obtain ⟨k, hk⟩ := h.doubled
  have hpos : 0 < s.1 := by
    rw [hk]
    exact Nat.mul_pos (by decide) (Nat.two_pow_pos k)
  rw [cgiGrown]
  split_ifs <;> omega

theorem BufferSound.grown (h : BufferSound s) {got : Bytes}
    (hg : got.length ≤ cgiGrown s.1 s.2.length) : BufferSound (cgiGrown s.1 s.2.length, got) := by
  obtain ⟨k, hk⟩ := h.doubled
  refine ⟨hg, ?_⟩
  rw [cgiGrown]
  split_ifs
  · exact ⟨k + 1, by rw [hk, Nat.pow_succ, Nat.mul_assoc]⟩
  · exact ⟨k, hk⟩

theorem cgiStep_sound (h : BufferSound s) (hs : cgiStep s x = some s') : BufferSound s' := by
  have hroom := cgiGrown_room h
  simp only [cgiStep] at hs
  split at hs
  · cases hs
  split at hs
  · cases hs
    apply h.grown
    rw [List.length_append, List.length_take]
    omega
  · cases hs
  · split at hs
    · cases hs
      exact h.grown hroom.le
    · cases hs

theorem foldlM_cgiStep_sound (h : BufferSound s) (hr : reads.foldlM cgiStep s = some s') :
    BufferSound s' := by
  induction reads generalizing s with
  | nil =>
    cases hr
    exact h
  | cons x reads ih =>
    rw [List.foldlM_cons] at hr
    obtain ⟨s₁, h1, h2⟩ := Option.bind_eq_some_iff.mp hr
    exact ih (cgiStep_sound h h1) h2

theorem cgiRunning_sound (h : CgiRunning reads s) :
    BufferSound s ∧ 0 < cgiGrown s.1 s.2.length - s.2.length := by
  have h0 : BufferSound (cgiCapacity, []) := ⟨Nat.zero_le _, 0, rfl⟩
  have hs := foldlM_cgiStep_sound h0 h
  exact ⟨hs, Nat.sub_pos_of_lt (cgiGrown_room hs)⟩

theorem cgiCollect_wellRead {capacity : ℕ} {got : Bytes} (h : WellRead capacity got.length reads) :
    cgiCollect capacity got reads = some (got ++ written reads) := by
  induction reads generalizing capacity got with
  | nil => exact h.elim
  | cons x reads ih =>
    obtain ⟨grow, r⟩ := x
    obtain ⟨hgrow, hr⟩ := h
    have hfull : ¬ (got.length = capacity ∧ grow = false) := by
      rintro ⟨hl, hg⟩
      rw [hgrow hl] at hg
      cases hg
    rw [cgiCollect_cons]
    simp only [cgiStep, hfull, if_false]
    cases r with
    | data b bs =>
      obtain ⟨hshort, hrest⟩ := hr
      have htake : (b :: bs).take (cgiGrown capacity got.length - got.length) = b :: bs :=
        List.take_of_length_le hshort
      simp only [htake, written]
      rw [ih, List.append_assoc]
      rwa [List.length_append]
    | eof => simp [written]
    | fail e =>
      obtain ⟨rfl, hrest⟩ := hr
      exact ih hrest

theorem cgiCollect_read_fails {grow : Bool} {e : Errno} (h : CgiRunning reads s)
    (he : e ≠ .EINTR) : cgiCollect cgiCapacity [] (reads ++ (grow, .fail e) :: rest) = none := by
  rw [cgiCollect_running h, cgiCollect_cons]
  simp [cgiStep, he]

end Loop

structure ScriptStarts (env : Env) (rp : ResolvedPath) : Prop where
  cgi : rp.pathType = .isCgi
  flag : env.flags.c = true
  pipe : env.cgi.pipe = true
  query : rp.queryString.length ≤ pathMax
  fork : env.cgi.fork = true
  malloc : env.cgi.malloc = true

def ReadFails (reads : List (Bool × ReadResult)) : Prop :=
  ∃ before s grow e rest, reads = before ++ (grow, .fail e) :: rest ∧ CgiRunning before s ∧
    e ≠ .EINTR

section Delivered

variable {env : Env} {round : ℕ} {c : Client} {rp : ResolvedPath} {req : Request}

theorem script_delivered (hs : ScriptStarts env rp) (hr : WellRead cgiCapacity 0 env.cgi.reads)
    (hw : env.cgi.waitpid = true) (hx : env.cgi.status = .exited 0)
    (ho : env.cgi.outMalloc = true) (ht : req.timeReceived.length < timeReceivedLength)
    (hl : (written env.cgi.reads).length < 2 ^ 64) :
    Stages (buildOkayResponse env round c rp req) (cgiHeader req (written env.cgi.reads).length)
      (written env.cgi.reads) := by
  have hread : cgiCollect cgiCapacity [] env.cgi.reads = some (written env.cgi.reads) :=
    cgiCollect_wellRead hr
  have hout : cgiOutput env rp = some (written env.cgi.reads) := by
    rw [cgiOutput, if_pos ⟨hs.flag, hs.pipe, hs.query, hs.fork, hs.malloc, hw, hx, ho⟩, hread]
  have hd : delivery env rp req =
      some (cgiHeader req (written env.cgi.reads).length, written env.cgi.reads) := by
    simp only [delivery, hs.cgi, hout, Option.map_some]
  have hst : Stages (buildOkayResponse env round c rp req) _
      (scriptBody req rp (written env.cgi.reads)) :=
    (buildOkayResponse_delivered hd fun _ => cgiHeader_length ht hl).1
  rwa [scriptBody, if_pos hs.cgi] at hst

theorem script_given_up (hs : ScriptStarts env rp) (hc : c.outBuf = none)
    (hout : cgiOutput env rp = none) :
    (buildOkayResponse env round c rp req).client.respVal = .resp500 ∧
      ((buildOkayResponse env round c rp req).client.outBuf = none ∨
        (buildOkayResponse env round c rp req).client.outBuf =
          some ((errorDelivery req .resp500).1 ++ sentBody req (errorDelivery req .resp500).2)) := by
  have hd : delivery env rp req = none := by
    simp only [delivery, hs.cgi, hout, Option.map_none]
  have hp : rp.pathType ≠ .unknown := by simp [hs.cgi]
  have hcode : failCode env rp = .resp500 := by
    simp [failCode, hs.cgi, hs.flag, Nat.not_lt.mpr hs.query]
  obtain ⟨b, hb, -, hclient⟩ := buildOkayResponse_fails round c hd hp
  refine ⟨?_, ?_⟩
  · rw [hclient, buildErrorResponse_respVal, hb, hcode]
  · have hstaged : (buildOkayResponse env round c rp req).ret = 0 ∨ _ :=
      buildOkayResponse_unstaged hc
    rcases hstaged with hret | hnone
    · have hst := (buildOkayResponse_failed hd hp hret).1
      rw [hcode] at hst
      exact Or.inr hst.outBuf
    · exact Or.inl hnone

theorem cgiOutput_none (h : ReadFails env.cgi.reads ∨ env.cgi.waitpid = false ∨
    env.cgi.status ≠ .exited 0) : cgiOutput env rp = none := by
  cases ho : cgiOutput env rp with
  | none => rfl
  | some got =>
    obtain ⟨⟨-, -, -, -, -, hw, hx, -⟩, hg⟩ := cgiOutput_some ho
    rcases h with ⟨before, s, grow, e, rest, hreads, hrun, he⟩ | hw' | hx'
    · rw [hreads, cgiCollect_read_fails hrun he] at hg
      cases hg
    · rw [hw] at hw'
      cases hw'
    · exact absurd hx hx'

end Delivered

/-- What a script writes is collected in a buffer that never overflows, and is
staged whole behind the header or not at all. -/
theorem script_output_intact (env : Env) (round : ℕ) (c : Client) (rp : ResolvedPath)
    (req : Request) (hs : ScriptStarts env rp) (hc : c.outBuf = none) :
    (∀ reads rest s, env.cgi.reads = reads ++ rest → CgiRunning reads s →
      s.2.length ≤ s.1 ∧ (∃ k, s.1 = 8192 * 2 ^ k) ∧
        0 < cgiGrown s.1 s.2.length - s.2.length) ∧
    (WellRead cgiCapacity 0 env.cgi.reads → env.cgi.waitpid = true →
      env.cgi.status = .exited 0 → env.cgi.outMalloc = true →
      req.timeReceived.length < timeReceivedLength → (written env.cgi.reads).length < 2 ^ 64 →
      Stages (buildOkayResponse env round c rp req) (cgiHeader req (written env.cgi.reads).length)
        (written env.cgi.reads)) ∧
    (ReadFails env.cgi.reads ∨ env.cgi.waitpid = false ∨ env.cgi.status ≠ .exited 0 →
      (buildOkayResponse env round c rp req).client.respVal = .resp500 ∧
      ((buildOkayResponse env round c rp req).client.outBuf = none ∨
        (buildOkayResponse env round c rp req).client.outBuf =
          some ((errorDelivery req .resp500).1 ++ sentBody req (errorDelivery req .resp500).2))) := by
  refine ⟨fun reads rest s _ hrun => ?_, script_delivered hs, fun h =>
    script_given_up hs hc (cgiOutput_none h)⟩
  obtain ⟨hsound, hroom⟩ := cgiRunning_sound hrun
  exact ⟨hsound.fits, hsound.doubled, hroom⟩

theorem script_output_intact_two_chunks :
    ScriptStarts (exitingEnv 0) scriptRp ∧
      WellRead cgiCapacity 0 (exitingEnv 0).cgi.reads ∧
      (buildOkayResponse (exitingEnv 0) 0 blankClient scriptRp .zero).client.outBuf =
        some (cgiHeader .zero 2 ++ ascii "hi") ∧
      (buildOkayResponse (exitingEnv 1) 0 blankClient scriptRp .zero).client.respVal = .resp500 := by
  have hstarts : ∀ code, ScriptStarts (exitingEnv code) scriptRp := fun _ =>
    ⟨rfl, rfl, rfl, by decide, rfl, rfl⟩
  have hread : WellRead cgiCapacity 0 (exitingEnv 0).cgi.reads := by
    simp [exitingEnv, WellRead, cgiGrown, cgiCapacity]
  have h0 := script_output_intact (exitingEnv 0) 0 blankClient scriptRp .zero (hstarts 0) rfl
  have h1 := script_output_intact (exitingEnv 1) 0 blankClient scriptRp .zero (hstarts 1) rfl
  exact ⟨hstarts 0, hread, (h0.2.1 hread rfl rfl rfl (by decide) (by decide)).outBuf,
    (h1.2.2 (Or.inr (Or.inr (by simp [exitingEnv])))).1⟩

end SimpleServer
