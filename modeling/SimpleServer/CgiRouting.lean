import SimpleServer.ResolvedNames

/-!
# Which spellings of a script are routed to `build_response_cgi`

`path_includes_cgi` compares ten bytes of the pathname with `./cgi-bin/`. The
file system collapses repeated slashes and skips `.`, so a script has many
names and only those that begin with these ten bytes are recognised. The
others are opened, found to be regular files and served as text. A path of
`PATH_MAX - 1` bytes loses its last byte and is then judged by another file.
-/

namespace SimpleServer

open CString FileTree Pathname SlotArray

def cgiDir : Name := ascii "cgi-bin"

def collapsed (a : Bytes) : List Name := (segments a).filter fun n => ¬ Stays n

structure NamesScript (fs : FileSystem) (a : Bytes) : Prop where
  below : ∃ n rest, collapsed a = cgiDir :: n :: rest
  file : ∃ q st, fs.tree.walk fs.tree.cwd (collapsed a) = .ok q ∧ fs.stat q = some st ∧
    st.isDir = false

/-- The request is handed to the CGI builder or refused, and nothing that is
sent depends on the contents of a file. -/
structure RoutesScript (fs : FileSystem) (base : Env) (round : ℕ) (c : Client) (buf : Bytes) :
    Prop where
  enabled : base.flags.c = true → (resolved (fs.env base) round c buf).ret = -1 ∨
    (resolved (fs.env base) round c buf).ret = 0 ∧
      (resolved (fs.env base) round c buf).rp.pathType = .isCgi
  disabled : base.flags.c = false → (resolved (fs.env base) round c buf).ret = -1 ∧
    ((fs.fopen (dot ++ component (parsed (fs.env base) c buf).out.path)).isOk = true →
      (resolved (fs.env base) round c buf).client.respVal = .resp501)
  notText : ¬ ((resolved (fs.env base) round c buf).ret = 0 ∧
    (resolved (fs.env base) round c buf).rp.pathType = .isFile)
  concealed : ∀ contents, respond ({ fs with contents := contents }.env base) round c buf =
    respond (fs.env base) round c buf

/-- A path that fits is spelled as the prefix test expects it, or does not open.
One that is cut opens something that is a script by the same test, or does not
open and was not to be answered `501`. -/
def SpelledForCgi (fs : FileSystem) (flags : Flags) (a : Bytes) : Prop :=
  if a.length ≤ pathMax - 2 then ascii "/cgi-bin/" <+: a ∨ (fs.fopen (dot ++ a)).isOk = false
  else match fs.fopen (dot ++ a.take (pathMax - 2)) with
    | .error _ => flags.c = true ∨ (fs.fopen (dot ++ a)).isOk = false
    | .ok q => ascii "/cgi-bin/" <+: a ∧ (flags.c = false ∨ (fs.stat q).any Stat.isDir = false)

section Routing

variable {fs : FileSystem} {base env : Env} {round : ℕ} {c : Client} {buf a path : Bytes} {q : Node}
  {rp : ResolvedPath} {st : Stat}

theorem NamesScript.opened (h : NamesScript fs a) (hroot : a.head? = some slash)
    (ho : fs.fopen (dot ++ a) = .ok q) : ∃ st, fs.stat q = some st ∧ st.isDir = false := by
  obtain ⟨t, rfl⟩ := List.head?_eq_some_iff.mp hroot
  obtain ⟨q', st, hwalk, hst, hfile⟩ := h.file
  have hres := (FileSystem.fopen_ok.mp ho).1
  have hseg : segments (dot ++ slash :: t) = dot :: segments t := by
    rw [segments_append_slash, segments_of_notMem (by decide)]
    rfl
  rw [Tree.resolve, if_neg (List.append_ne_nil_of_left_ne_nil (by decide) _),
    if_neg (not_absolute_dot _), hseg] at hres
  have hsame : (dot :: segments t).filter (fun n => ¬ Stays n) = collapsed (slash :: t) := by
    rw [collapsed, segments_slash, List.filter_cons_of_neg (by decide),
      List.filter_cons_of_neg (by decide)]
  have hq := fs.tree.walk_filter_stays hres
  rw [hsame, hwalk] at hq
  cases hq
  exact ⟨st, hst, hfile⟩

theorem pathIncludesCgi_cut (a : Bytes) :
    pathIncludesCgi (dot ++ a.take (pathMax - 2)) = true ↔ ascii "/cgi-bin/" <+: a := by
  have hcgi : cgiBin = dot ++ ascii "/cgi-bin/" := rfl
  have h9 : (ascii "/cgi-bin/").length ≤ pathMax - 2 := by decide
  rw [pathIncludesCgi_iff, hcgi, List.prefix_append_right_inj, List.prefix_take_iff]
  exact and_iff_left h9

theorem resolveOpened_routes {h : Handle} :
    let r := resolveOpened (fs.env base) round c rp path h st
    (pathIncludesCgi path = true ∧ base.flags.c = false →
      r.ret = -1 ∧ r.client.respVal = .resp501) ∧
    (¬ (pathIncludesCgi path = true ∧ base.flags.c = false) →
      r.ret = 0 ∧ (r.rp.pathType = .isCgi ↔ pathIncludesCgi path = true ∧ st.isDir = false)) := by
  intro r
  have hflag : (fs.env base).flags.c = base.flags.c := rfl
  constructor
  · intro hr
    simp only [r, resolveOpened, hflag, hr, and_self, if_true]
  · intro hr
    simp only [r, resolveOpened, hflag, hr, if_false]
    cases hd : st.isDir with
    | true =>
      simp only [if_true]
      refine ⟨resolveDirectory_ok.1, fun ht => absurd ht resolveDirectory_ok.2.2, fun ht => ?_⟩
      cases ht.2
    | false =>
      cases hp : pathIncludesCgi path with
      | true => simp
      | false => simp

theorem respond_fread (hr : (resolved env round c buf).ret ≠ 0 ∨
    (resolved env round c buf).rp.pathType = .isCgi) (contents : Node → Bytes) :
    respond { env with fread := contents } round c buf = respond env round c buf := by
  have hparsed : parsed { env with fread := contents } c buf = parsed env c buf := rfl
  have hresolved : resolved { env with fread := contents } round c buf = resolved env round c buf :=
    rfl
  by_cases hp : (parsed env c buf).ret = 0
  · by_cases h0 : (resolved env round c buf).ret = 0
    · rw [respond_found hp h0, respond_found (hparsed ▸ hp) (hresolved ▸ h0), hparsed, hresolved]
      have hcgi := hr.resolve_left (not_not.mpr h0)
      simp only [buildOkayResponse, buildByType, hcgi]
      rfl
    · rw [respond_unresolved hp h0, respond_unresolved (hparsed ▸ hp) (hresolved ▸ h0), hparsed,
        hresolved]
      rfl
  · rw [respond_refused hp, respond_refused (hparsed ▸ hp), hparsed]
    rfl

theorem resolved_routes (ho : fs.fopen (localPath (parsed (fs.env base) c buf).out.path) = .ok q)
    (hs : fs.stat q = some st) :
    let r := resolved (fs.env base) round c buf
    let cgi := pathIncludesCgi (localPath (parsed (fs.env base) c buf).out.path)
    (cgi = true ∧ base.flags.c = false → r.ret = -1 ∧ r.client.respVal = .resp501) ∧
    (¬ (cgi = true ∧ base.flags.c = false) →
      r.ret = 0 ∧ (r.rp.pathType = .isCgi ↔ cgi = true ∧ st.isDir = false)) := by
  intro r cgi
  have hsame : SameOutcome r _ := resolvePath_opened ho hs
  rw [hsame.ret, hsame.client, hsame.rp]
  exact resolveOpened_routes

theorem resolved_failed {e : Errno} (ho : (fs.env base).fopen .target
    (localPath (parsed (fs.env base) c buf).out.path) = .error e) :
    (resolved (fs.env base) round c buf).ret = -1 ∧
      (resolved (fs.env base) round c buf).client.respVal ≠ .resp501 := by
  simp only [resolved, resolvePath, ho, true_and]
  split_ifs <;> decide

theorem routesScript_iff (a : Bytes) (ha : component (parsed (fs.env base) c buf).out.path = a) :
    RoutesScript fs base round c buf ↔ match fs.fopen (dot ++ a.take (pathMax - 2)) with
      | .error _ => base.flags.c = true ∨ (fs.fopen (dot ++ a)).isOk = false
      | .ok q => ascii "/cgi-bin/" <+: a ∧
        (base.flags.c = false ∨ (fs.stat q).any Stat.isDir = false) := by
  have hlocal : localPath (parsed (fs.env base) c buf).out.path = dot ++ a.take (pathMax - 2) := by
    rw [localPath_eq_take, ha]
  have hnone : (resolved (fs.env base) round c buf).ret ≠ 0 ∨
      (resolved (fs.env base) round c buf).rp.pathType = .isCgi →
      ∀ contents, respond ({ fs with contents := contents }.env base) round c buf =
        respond (fs.env base) round c buf := fun h contents => respond_fread h contents
  cases ho : fs.fopen (dot ++ a.take (pathMax - 2)) with
  | error e =>
    obtain ⟨hret, hcode⟩ : (resolved (fs.env base) round c buf).ret = -1 ∧ _ :=
      resolved_failed (by rw [hlocal]; exact ho)
    have hne : (resolved (fs.env base) round c buf).ret ≠ 0 := by
      rw [hret]
      decide
    constructor
    · intro h
      by_contra hn
      rw [not_or, Bool.not_eq_true, Bool.not_eq_false] at hn
      have hd := (h.disabled hn.1).2
      rw [ha] at hd
      exact hcode (hd hn.2)
    · intro h
      refine ⟨fun _ => Or.inl hret, fun hc => ⟨hret, fun hopen => ?_⟩, fun ht => hne ht.1,
        hnone (Or.inl hne)⟩
      rw [ha] at hopen
      rcases h with h | h
      · rw [h] at hc
        cases hc
      · rw [h] at hopen
        cases hopen
  | ok q =>
    obtain ⟨st, hst⟩ := FileSystem.fopen_stat ho
    have hdir : (fs.stat q).any Stat.isDir = st.isDir := by rw [hst]; rfl
    obtain ⟨hrefused, hgo⟩ : _ ∧ (_ → (resolved (fs.env base) round c buf).ret = 0 ∧ _) :=
      resolved_routes (by rw [hlocal]; exact ho) hst
    rw [hlocal, pathIncludesCgi_cut] at hrefused hgo
    simp only [hdir]
    constructor
    · intro h
      by_cases hr : ascii "/cgi-bin/" <+: a ∧ base.flags.c = false
      · exact ⟨hr.1, Or.inl hr.2⟩
      · obtain ⟨hret, hcgi⟩ := hgo hr
        have hc : base.flags.c = true := by
          by_contra hc
          rw [Bool.not_eq_true] at hc
          have hneg := (h.disabled hc).1
          rw [hret] at hneg
          cases hneg
        rcases h.enabled hc with hneg | hok
        · rw [hret] at hneg
          cases hneg
        · exact ⟨(hcgi.mp hok.2).1, Or.inr (hcgi.mp hok.2).2⟩
    · rintro ⟨hpre, hd⟩
      cases hc : base.flags.c with
      | false =>
        obtain ⟨hret, hcode⟩ := hrefused ⟨hpre, hc⟩
        have hne : (resolved (fs.env base) round c buf).ret ≠ 0 := by
          rw [hret]
          decide
        exact ⟨fun _ => Or.inl hret, fun _ => ⟨hret, fun _ => hcode⟩, fun ht => hne ht.1,
          hnone (Or.inl hne)⟩
      | true =>
        have hon : base.flags.c ≠ false := by
          rw [hc]
          decide
        obtain ⟨hret, hcgi⟩ := hgo fun hr => hon hr.2
        have hok := hcgi.mpr ⟨hpre, hd.resolve_left hon⟩
        refine ⟨fun _ => Or.inr ⟨hret, hok⟩, fun hf => absurd hf hon, fun ht => ?_,
          hnone (Or.inr hok)⟩
        rw [hok] at ht
        cases ht.2

end Routing

/-- A request that names a script is routed as one if and only if its path is
spelled for the prefix test and is not cut, or cannot be opened, or is cut to
something that fares no better. -/
theorem script_routed_iff (fs : FileSystem) (base : Env) (round : ℕ) (c : Client) (buf : Bytes)
    (h : (parsed (fs.env base) c buf).ret = 0)
    (hn : NamesScript fs (component (parsed (fs.env base) c buf).out.path)) :
    RoutesScript fs base round c buf ↔
      SpelledForCgi fs base.flags (component (parsed (fs.env base) c buf).out.path) := by
  have hroot : (component (parsed (fs.env base) c buf).out.path).head? = some slash := by
    obtain ⟨rest, hrest⟩ := (parsed_target h).rooted
    rw [hrest]
    rfl
  rw [routesScript_iff _ rfl, SpelledForCgi]
  generalize component (parsed (fs.env base) c buf).out.path = a at hn hroot
  split_ifs with hlen
  · rw [List.take_of_length_le hlen]
    cases ho : fs.fopen (dot ++ a) with
    | error e => simp [Except.isOk, Except.toBool]
    | ok q =>
      obtain ⟨st, hst, hfile⟩ := hn.opened hroot ho
      simp [Except.isOk, Except.toBool, hst, hfile]
  · rfl

section OneScript

def scriptNode : Node := [cgiDir, ascii "x"]

def scriptTree : Tree Stat.isDir where
  node q := if q = [] ∨ q = [cgiDir] then .ok ⟨true, 0, 0⟩
    else if q = scriptNode then .ok ⟨false, 9, 0⟩ else .error .ENOENT
  cwd := []
  inDir := by
    intro q n i h
    refine ⟨⟨true, 0, 0⟩, if_pos ?_, rfl⟩
    split_ifs at h with hd hx
    · rcases hd with hd | hd
      · exact absurd hd (List.append_ne_nil_of_right_ne_nil q (by simp))
      · rcases List.append_eq_singleton_iff.mp hd with hq | hq
        · exact Or.inl hq.1
        · simp at hq
    · exact Or.inr (List.append_inj_left' (show q ++ [n] = [cgiDir] ++ [ascii "x"] from hx) rfl)
  cwdDir := ⟨⟨true, 0, 0⟩, rfl, rfl⟩

def scriptFs : FileSystem where
  tree := scriptTree
  readable _ := true
  contents q := if q = scriptNode then ascii "#!/bin/sh" else []
  entries _ := []

theorem scriptFs_names : NamesScript scriptFs (ascii "/cgi-bin/x") ∧
    NamesScript scriptFs (ascii "//cgi-bin/x") :=
  ⟨⟨⟨ascii "x", [], by decide +kernel⟩, scriptNode, ⟨false, 9, 0⟩, by decide +kernel⟩,
    ⟨⟨ascii "x", [], by decide +kernel⟩, scriptNode, ⟨false, 9, 0⟩, by decide +kernel⟩⟩

end OneScript

theorem script_routed_iff_literal :
    let c := { blankClient with headerLen := 27 }
    let buf := ascii "GET /cgi-bin/x HTTP/1.0\r\n\r\n"
    (parsed (scriptFs.env workingEnv) c buf).ret = 0 ∧
      RoutesScript scriptFs workingEnv 0 c buf := by
  intro c buf
  have h : (parsed (scriptFs.env workingEnv) c buf).ret = 0 := by decide +kernel
  have hpath : component (parsed (scriptFs.env workingEnv) c buf).out.path =
      ascii "/cgi-bin/x" := by decide +kernel
  refine ⟨h, (script_routed_iff scriptFs workingEnv 0 c buf h ?_).mpr ?_⟩
  · rw [hpath]
    exact scriptFs_names.1
  · rw [hpath]
    exact Or.inl (by decide)

theorem doubled_slash_serves_script :
    let c := { blankClient with headerLen := 28 }
    let buf := ascii "GET //cgi-bin/x HTTP/1.0\r\n\r\n"
    (parsed (scriptFs.env workingEnv) c buf).ret = 0 ∧
      (parsed (scriptFs.env workingEnv) c buf).out.path = ascii "//cgi-bin/x" ∧
      NamesScript scriptFs (ascii "//cgi-bin/x") ∧
      (resolved (scriptFs.env workingEnv) 0 c buf).ret = 0 ∧
      (resolved (scriptFs.env workingEnv) 0 c buf).rp.pathType = .isFile ∧
      (∃ header, (respond (scriptFs.env workingEnv) 0 c buf).client.outBuf =
        some (header ++ ascii "#!/bin/sh")) ∧
      ¬ RoutesScript scriptFs workingEnv 0 c buf := by
  intro c buf
  have hr : (resolved (scriptFs.env workingEnv) 0 c buf).ret = 0 ∧
      (resolved (scriptFs.env workingEnv) 0 c buf).rp.pathType = .isFile := by decide +kernel
  refine ⟨by decide +kernel, by decide +kernel, scriptFs_names.2, hr.1, hr.2,
    ⟨fileHeader (parsed (scriptFs.env workingEnv) c buf).out [] none 9, by decide +kernel⟩,
    fun h => h.notText hr⟩

end SimpleServer
