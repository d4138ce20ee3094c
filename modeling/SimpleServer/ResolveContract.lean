import SimpleServer.FileHandles

/-!
# What `resolve_path` promises its caller

`do_read` closes `rp.file_ptr` after every call, so a failure has to leave it
NULL with nothing open behind it, and a success has to say whether a handle is
held. Three of the exits break this: both `fstat` failures close the handle
and keep the pointer, and the refusal of a CGI path clears the pointer and
keeps the handle.
-/

namespace SimpleServer

open CString FileTree Ledger

structure FailsCleanly (c : Client) (r : ResolveResult) : Prop where
  code : r.client.respVal ∈ [ClientResponse.resp403, .resp404, .resp500, .resp501]
  pointer : r.rp.filePtr = none
  closed : replay [] (handles r.events) = some []
  filePtr : r.client.filePtr = c.filePtr
  fileSize : r.client.fileSize = c.fileSize

structure FindsCleanly (c : Client) (r : ResolveResult) : Prop where
  untouched : r.client.respVal = c.respVal
  kind : r.rp.pathType = .isFile ∨ r.rp.pathType = .isDir ∨ r.rp.pathType = .isCgi
  file : r.rp.pathType = .isFile → ∃ h, replay [] (handles r.events) = some [h] ∧
    r.rp.filePtr = some h ∧ r.client.filePtr = some h
  dir : r.rp.pathType = .isDir → replay [] (handles r.events) = some []

structure ResolveContract (c : Client) (r : ResolveResult) : Prop where
  ret : r.ret = 0 ∨ r.ret = -1
  failed : r.ret = -1 → FailsCleanly c r
  found : r.ret = 0 → FindsCleanly c r

def IndexExamined (env : Env) (path : Bytes) : Prop :=
  match env.fopen .index (getFilePath (getLastChar path) path dirIndex) with
  | .ok n => (env.fstat .index n).isSome = true
  | .error _ =>
    match env.fopen .index2 (getFilePath (getLastChar path) path dirIndex2) with
    | .ok n => (env.fstat .index2 n).isSome = true
    | .error _ => True

/-- Whatever is opened can be examined, and no CGI path is opened without
`C_FLAG`. -/
def Examined (env : Env) (path : Bytes) : Prop :=
  ∀ n, env.fopen .target (localPath path) = .ok n →
    ∃ st, env.fstat .target n = some st ∧
      (pathIncludesCgi (localPath path) = true → env.flags.c = true) ∧
      (st.isDir = true → IndexExamined env (localPath path))

section Contract

variable {env : Env} {round : ℕ} {c : Client} {rp : ResolvedPath} {path : Bytes} {st : Stat}

theorem not_contract_of_pointer {r : ResolveResult} {h : Handle} (hret : r.ret = -1)
    (hp : r.rp.filePtr = some h) : ¬ ResolveContract c r := by
  intro hr
  rw [(hr.failed hret).pointer] at hp
  cases hp

theorem FailsCleanly.contract {r : ResolveResult} (hret : r.ret = -1) (h : FailsCleanly c r) :
    ResolveContract c r := by
  refine ⟨Or.inr hret, fun _ => h, fun h0 => ?_⟩
  rw [hret] at h0
  cases h0

theorem FindsCleanly.contract {r : ResolveResult} (hret : r.ret = 0) (h : FindsCleanly c r) :
    ResolveContract c r := by
  refine ⟨Or.inl hret, fun h0 => ?_, fun _ => h⟩
  rw [hret] at h0
  cases h0

theorem handleDirIndex_contract {d h : Handle} (hne : d ≠ h) (pre : List Event)
    (hpre : handles pre = [.take d, .take h, .give d]) :
    ResolveContract c { handleDirIndex env c rp h with
        events := pre ++ (handleDirIndex env c rp h).events } ↔
      (env.fstat h.site h.node).isSome = true := by
  have hheld : replay [] (handles pre) = some [h] := hpre ▸ replay_exchange d hne
  cases hs : env.fstat h.site h.node with
  | none =>
    simp only [handleDirIndex, hs, Option.isSome_none, Bool.false_eq_true, iff_false]
    exact not_contract_of_pointer rfl rfl
  | some st =>
    simp only [handleDirIndex, hs, Option.isSome_some, iff_true, List.append_nil]
    exact FindsCleanly.contract rfl ⟨rfl, Or.inl rfl, fun _ => ⟨h, hheld, rfl, rfl⟩,
      fun hk => by cases hk⟩

theorem resolveDirectory_contract {d : Handle} (hd : d.site = .target) (pre : List Event)
    (hpre : handles pre = [.take d]) :
    ResolveContract c { resolveDirectory env round c rp path d st with
        events := pre ++ (resolveDirectory env round c rp path d st).events } ↔
      IndexExamined env path := by
  have hne : ∀ (site : Site) (n : Node), site ≠ .target → d ≠ ⟨round, c.fd, site, n⟩ := by
    intro site n hs he
    rw [he] at hd
    exact hs hd
  cases hi : env.fopen .index (getFilePath (getLastChar path) path dirIndex) with
  | ok n =>
    simp only [resolveDirectory, IndexExamined, hi, ← List.append_assoc]
    apply handleDirIndex_contract (hne .index n (by decide))
    rw [handles_append, hpre]
    rfl
  | error e =>
    cases hi2 : env.fopen .index2 (getFilePath (getLastChar path) path dirIndex2) with
    | ok n =>
      simp only [resolveDirectory, IndexExamined, hi, hi2, ← List.append_assoc]
      apply handleDirIndex_contract (hne .index2 n (by decide))
      rw [handles_append, hpre]
      rfl
    | error e2 =>
      simp only [resolveDirectory, IndexExamined, hi, hi2, iff_true]
      refine FindsCleanly.contract rfl ⟨rfl, Or.inr (Or.inl rfl), (fun hk => by cases hk),
        fun _ => ?_⟩
      rw [handles_append, hpre]
      exact replay_take_give d

theorem resolveOpened_contract {h : Handle} (hh : h.site = .target) (hrp : rp.filePtr = some h)
    (pre : List Event) (hpre : handles pre = [.take h]) :
    ResolveContract c { resolveOpened env round c rp path h st with
        events := pre ++ (resolveOpened env round c rp path h st).events } ↔
      (pathIncludesCgi path = true → env.flags.c = true) ∧
        (st.isDir = true → IndexExamined env path) := by
  by_cases hc : pathIncludesCgi path = true ∧ env.flags.c = false
  · simp only [resolveOpened, hc, and_self, if_true, Bool.false_eq_true, imp_false,
      not_true, false_and, iff_false, List.append_nil]
    intro hr
    have hclosed := (hr.failed rfl).closed
    rw [hpre, replay_take] at hclosed
    cases hclosed
  · have hgo : pathIncludesCgi path = true → env.flags.c = true := by
      intro hp
      by_contra hf
      exact hc ⟨hp, by simpa using hf⟩
    rw [and_iff_right hgo]
    simp only [resolveOpened, hc, if_false]
    cases hd : st.isDir with
    | true =>
      simp only [if_true, true_implies]
      exact resolveDirectory_contract hh pre hpre
    | false =>
      simp only [Bool.false_eq_true, if_false, false_implies, iff_true, List.append_nil]
      have hheld : replay [] (handles pre) = some [h] := by rw [hpre, replay_take]
      apply FindsCleanly.contract rfl
      constructor
      · rfl
      · dsimp only
        split_ifs <;> simp
      · exact fun _ => ⟨h, hheld, hrp, rfl⟩
      · dsimp only
        split_ifs <;> simp

end Contract

/-- The contract is kept if and only if everything that is opened can be
examined and no CGI path is opened with CGI disabled. -/
theorem resolve_contract_iff (env : Env) (round : ℕ) (c : Client) (req : Request) :
    ResolveContract c (resolvePath env round c req .zero) ↔ Examined env req.path := by
  cases ho : env.fopen .target (localPath req.path) with
  | error e =>
    simp only [resolvePath, Examined, ho]
    refine ⟨(fun _ _ hk => by cases hk), fun _ =>
      FailsCleanly.contract rfl ⟨?_, rfl, rfl, rfl, rfl⟩⟩
    split_ifs <;> simp
  | ok n =>
    cases hs : env.fstat .target n with
    | none =>
      simp only [resolvePath, Examined, ho, hs]
      refine ⟨fun hr => absurd hr (not_contract_of_pointer rfl rfl), fun he => ?_⟩
      obtain ⟨st, hst, -⟩ := he n rfl
      rw [hs] at hst
      cases hst
    | some st =>
      have hex : Examined env req.path ↔
          (pathIncludesCgi (localPath req.path) = true → env.flags.c = true) ∧
            (st.isDir = true → IndexExamined env (localPath req.path)) := by
        simp [Examined, ho, hs]
      rw [hex]
      simp only [resolvePath, ho, hs]
      exact resolveOpened_contract rfl rfl [_, _] rfl

theorem failure_breaks_contract :
    let openEnv := { emptyEnv with fopen := fun _ _ => .ok [] }
    let cgi := resolvePath { openEnv with fstat := fun _ _ => some ⟨false, 9, 0⟩ } 0 blankClient
      { Request.zero with path := ascii "/cgi-bin/x" } .zero
    let unexamined := resolvePath openEnv 0 blankClient
      { Request.zero with path := ascii "/a" } .zero
    let h : Handle := ⟨0, 0, .target, []⟩
    (cgi.ret = -1 ∧ cgi.rp.filePtr = none ∧ replay [] (handles cgi.events) = some [h] ∧
      ¬ ResolveContract blankClient cgi) ∧
    (unexamined.ret = -1 ∧ unexamined.rp.filePtr = some h ∧
      replay [] (handles unexamined.events) = some [] ∧
      ¬ ResolveContract blankClient unexamined) := by
  intro openEnv cgi unexamined h
  have hcgi : cgi.ret = -1 ∧ replay [] (handles cgi.events) = some [h] := by decide +kernel
  have hptr : unexamined.ret = -1 ∧ unexamined.rp.filePtr = some h := by decide +kernel
  refine ⟨⟨hcgi.1, by decide +kernel, hcgi.2, fun hr => ?_⟩, hptr.1, hptr.2, by decide +kernel,
    not_contract_of_pointer hptr.1 hptr.2⟩
  have hclosed := (hr.failed hcgi.1).closed
  rw [hcgi.2] at hclosed
  cases hclosed

end SimpleServer
