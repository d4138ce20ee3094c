import SimpleServer.CgiRouting
import SimpleServer.Configuration

/-!
# The directory of the CGI programs

`-c` stores its directory in `cgi_addr`, and nothing reads it again: which
requests are handed to `build_response_cgi` is decided by the ten bytes
`./cgi-bin/`, and the program is the request path behind `.`. So the programs
that run are those of the configured directory only for requests on which the
two spellings of that directory agree.
-/

namespace SimpleServer

open CString FileTree Pathname SlotArray

def cgiArgument (argv : List Bytes) : Option Bytes := lastOf Opt.cgiDir (options argv)

def Below (d q : Node) : Prop := ∃ n rest, q = d ++ n :: rest

def ReadsFile (fs : FileSystem) (p : Bytes) (q : Node) : Prop :=
  fs.fopen p = .ok q ∧ ∃ st, fs.stat q = some st ∧ st.isDir = false

def Executes (fs : FileSystem) (executable : Node → Bool) (p : Bytes) (q : Node) : Prop :=
  fs.tree.resolve p = .ok q ∧ executable q = true ∧ ∃ st, fs.stat q = some st ∧ st.isDir = false

/-- What is run for a request lies below the directory behind `-c`, and what
lies there is run. -/
structure CgiConfined (fs : FileSystem) (executable : Node → Bool) (argv : List Bytes) (base : Env)
    (round : ℕ) (c : Client) (buf : Bytes) : Prop where
  below : ∀ call q, .execvp call ∈ (respond (fs.env base) round c buf).events →
    Executes fs executable call.path q →
      ∃ dir d, cgiArgument argv = some dir ∧ fs.tree.resolve dir = .ok d ∧ Below d q
  routed : ∀ dir d q, cgiArgument argv = some dir → fs.tree.resolve dir = .ok d →
    (parsed (fs.env base) c buf).ret = 0 →
    ReadsFile fs (dot ++ component (parsed (fs.env base) c buf).out.path) q → Below d q →
      (resolved (fs.env base) round c buf).ret = 0 ∧
        (resolved (fs.env base) round c buf).rp.pathType = .isCgi
  disabled : cgiArgument argv = none →
    ∀ call, .execvp call ∉ (respond (fs.env base) round c buf).events

/-- For the names of programs, beginning with `/cgi-bin/` and lying below `d`
are the same. -/
structure SpelledBelow (fs : FileSystem) (executable : Node → Bool) (cgi : CgiRun) (d : Node)
    (a : Bytes) : Prop where
  runs : ascii "/cgi-bin/" <+: a → cgi.pipe = true → cgi.fork = true →
    (∃ q, ReadsFile fs (dot ++ a.take (pathMax - 2)) q) →
    (∃ q, Executes fs executable (dot ++ a) q) → Below d (fs.tree.cwd ++ collapsed a)
  routed : Below d (fs.tree.cwd ++ collapsed a) → (∃ q, ReadsFile fs (dot ++ a) q) →
    ascii "/cgi-bin/" <+: a ∧ ∃ q, ReadsFile fs (dot ++ a.take (pathMax - 2)) q

section Executed

variable {env : Env} {round : ℕ} {c : Client} {rp : ResolvedPath} {req : Request} {buf : Bytes}
  {call : ExecCall}

theorem buildResponseCgi_execvp : .execvp call ∈ (buildResponseCgi env round c rp req).events ↔
    env.flags.c = true ∧ env.cgi.pipe = true ∧ rp.queryString.length ≤ pathMax ∧
      env.cgi.fork = true ∧ call = execCall c rp req := by
  by_cases hc : env.flags.c = true
  by_cases hp : env.cgi.pipe = true
  by_cases hq : rp.queryString.length ≤ pathMax
  by_cases hf : env.cgi.fork = true
  · simp only [buildResponseCgi, hc, hp, hf, Nat.not_lt.mpr hq, Bool.true_eq_false, if_false]
    repeat' split
    all_goals simp [hq]
  · simp [buildResponseCgi, hc, hp, hf, Nat.not_lt.mpr hq]
  · simp [buildResponseCgi, hc, hp, hq, Nat.lt_of_not_le hq]
  · simp [buildResponseCgi, hc, hp]
  · simp [buildResponseCgi, hc]

theorem buildErrorResponse_execvp : .execvp call ∉ (buildErrorResponse env round c req).events := by
  intro hm
  cases buildErrorResponse_events env round c .zero req _ hm with
  | execvp hp => cases hp

theorem buildByType_execvp : .execvp call ∈ (buildByType env round c rp req).events ↔
    rp.pathType = .isCgi ∧ .execvp call ∈ (buildResponseCgi env round c rp req).events := by
  constructor
  · intro hm
    have hp : rp.pathType = .isCgi := by
      cases buildByType_events env round c rp req _ hm with
      | execvp hp => exact hp
    simp only [buildByType, hp] at hm
    exact ⟨hp, hm⟩
  · rintro ⟨hp, hm⟩
    simpa only [buildByType, hp] using hm

theorem buildOkayResponse_execvp :
    .execvp call ∈ (buildOkayResponse env round c rp req).events ↔
      .execvp call ∈ (buildByType env round { c with respVal := .resp200 } rp req).events := by
  have hfreed : ∀ b : Bool, .execvp call ∉ (if b = true then
      [Event.release (.scratch round c.fd .outBuf)] else []) := by
    intro b
    split_ifs <;> simp
  simp only [buildOkayResponse]
  split
  · simp only [List.mem_append, buildErrorResponse_execvp, hfreed, or_false]
  · rfl

theorem respond_execvp_iff : .execvp call ∈ (respond env round c buf).events ↔
    (parsed env c buf).ret = 0 ∧ (resolved env round c buf).ret = 0 ∧
      (resolved env round c buf).rp.pathType = .isCgi ∧ env.flags.c = true ∧
      env.cgi.pipe = true ∧ env.cgi.fork = true ∧
      call = execCall (resolved env round c buf).client (resolved env round c buf).rp
        (parsed env c buf).out := by
  have hquery : (resolved env round c buf).rp.queryString.length ≤ pathMax := by
    rw [resolved, resolvePath_queryString, storeQuery]
    split
    · exact (List.length_take_le _ _).trans (by decide)
    · exact Nat.zero_le _
  have hres : .execvp call ∉ (resolved env round c buf).events := by
    intro hm
    cases resolvePath_events env round _ _ _ _ hm
  by_cases hp : (parsed env c buf).ret = 0
  · by_cases hr : (resolved env round c buf).ret = 0
    · rw [respond_found hp hr]
      simp only [List.mem_append, hres, false_or, buildOkayResponse_execvp, buildByType_execvp,
        buildResponseCgi_execvp, hp, hr, hquery, true_and]
      rfl
    · rw [respond_unresolved hp hr]
      simp only [List.mem_append, hres, buildErrorResponse_execvp, or_self, false_iff]
      exact fun h => hr h.2.1
  · rw [respond_refused hp]
    simp only [buildErrorResponse_execvp, false_iff]
    exact fun h => hp h.1

end Executed

section Spelling

variable {fs : FileSystem} {base : Env} {round : ℕ} {c : Client} {buf a : Bytes} {q : Node}

theorem file_node {path : Bytes} (ht : Target path) (hroot : ∃ t, a = slash :: t)
    (hpath : a <+: path) (h : fs.tree.resolve (dot ++ a) = .ok q) {st : Stat}
    (hs : fs.stat q = some st) (hf : st.isDir = false) : q = fs.tree.cwd ++ collapsed a := by
  obtain ⟨t, rfl⟩ := hroot
  have hnode : fs.tree.node q = .ok st := by
    rw [FileSystem.stat] at hs
    cases hn : fs.tree.node q with
    | error e =>
      rw [hn] at hs
      cases hs
    | ok i =>
      rw [hn] at hs
      cases hs
      rfl
  have hseg : segments (dot ++ slash :: t) = dot :: segments t := by
    rw [segments_append_slash, segments_of_notMem (by decide)]
    rfl
  rw [Tree.resolve_file (ht.upOnlyLast hpath) h hnode hf, if_neg (not_absolute_dot _), hseg,
    collapsed, segments_slash, List.filter_cons_of_neg (by decide),
    List.filter_cons_of_neg (by decide)]

theorem resolved_cgi_iff (ha : component (parsed (fs.env base) c buf).out.path = a) :
    (resolved (fs.env base) round c buf).ret = 0 ∧
        (resolved (fs.env base) round c buf).rp.pathType = .isCgi ↔
      base.flags.c = true ∧ ascii "/cgi-bin/" <+: a ∧
        ∃ q, ReadsFile fs (dot ++ a.take (pathMax - 2)) q := by
  have hlocal : localPath (parsed (fs.env base) c buf).out.path = dot ++ a.take (pathMax - 2) := by
    rw [localPath_eq_take, ha]
  cases ho : fs.fopen (dot ++ a.take (pathMax - 2)) with
  | error e =>
    obtain ⟨hret, -⟩ : (resolved (fs.env base) round c buf).ret = -1 ∧ _ :=
      resolved_failed (by rw [hlocal]; exact ho)
    rw [hret]
    refine ⟨fun h => absurd h.1 (by decide), ?_⟩
    rintro ⟨-, -, q, hq, -⟩
    rw [ho] at hq
    cases hq
  | ok q =>
    obtain ⟨st, hst⟩ := FileSystem.fopen_stat ho
    obtain ⟨hrefused, hgo⟩ : _ ∧ (_ → (resolved (fs.env base) round c buf).ret = 0 ∧ _) :=
      resolved_routes (by rw [hlocal]; exact ho) hst
    rw [hlocal, pathIncludesCgi_cut] at hrefused hgo
    have hreads : (∃ q, ReadsFile fs (dot ++ a.take (pathMax - 2)) q) ↔ st.isDir = false := by
      constructor
      · rintro ⟨q', hq', st', hst', hf⟩
        rw [ho] at hq'
        cases hq'
        rw [hst] at hst'
        cases hst'
        exact hf
      · exact fun hf => ⟨q, ho, st, hst, hf⟩
    rw [hreads]
    by_cases hr : ascii "/cgi-bin/" <+: a ∧ base.flags.c = false
    · rw [(hrefused hr).1]
      refine ⟨fun h => absurd h.1 (by decide), fun h => ?_⟩
      rw [hr.2] at h
      cases h.1
    · obtain ⟨hret, hcgi⟩ := hgo hr
      rw [hcgi]
      refine ⟨fun h => ⟨?_, h.2⟩, fun h => ⟨hret, h.2⟩⟩
      by_contra hc
      exact hr ⟨h.2.1, by simpa using hc⟩

theorem program_node (h : (parsed (fs.env base) c buf).ret = 0)
    (ha : component (parsed (fs.env base) c buf).out.path = a)
    (hq : fs.tree.resolve (dot ++ a) = .ok q) {st : Stat} (hs : fs.stat q = some st)
    (hf : st.isDir = false) : q = fs.tree.cwd ++ collapsed a := by
  have ht := parsed_target h
  obtain ⟨rest, hrest⟩ := ht.rooted
  refine file_node ht ⟨rest.takeWhile (· != 63), ?_⟩ ?_ hq hs hf
  · rw [← ha, hrest]
    rfl
  · rw [← ha]
    exact List.takeWhile_prefix _

theorem respond_runs_iff (h : (parsed (fs.env base) c buf).ret = 0)
    (ha : component (parsed (fs.env base) c buf).out.path = a) :
    (∃ call, .execvp call ∈ (respond (fs.env base) round c buf).events ∧ call.path = dot ++ a) ↔
      base.flags.c = true ∧ ascii "/cgi-bin/" <+: a ∧
        (∃ q, ReadsFile fs (dot ++ a.take (pathMax - 2)) q) ∧
        base.cgi.pipe = true ∧ base.cgi.fork = true := by
  have hpath : scriptPath (parsed (fs.env base) c buf).out.path = dot ++ a := by
    rw [scriptPath_eq (parsed_target h).noNul, ha]
  have hcgi : (resolved (fs.env base) round c buf).ret = 0 ∧ _ ↔ _ := resolved_cgi_iff ha
  constructor
  · rintro ⟨call, hcall, -⟩
    obtain ⟨-, hret, htype, hc, hp, hf, -⟩ := respond_execvp_iff.mp hcall
    obtain ⟨-, hpre, hreads⟩ := hcgi.mp ⟨hret, htype⟩
    exact ⟨hc, hpre, hreads, hp, hf⟩
  · rintro ⟨hc, hpre, hreads, hp, hf⟩
    obtain ⟨hret, htype⟩ := hcgi.mpr ⟨hc, hpre, hreads⟩
    exact ⟨_, respond_execvp_iff.mpr ⟨h, hret, htype, hc, hp, hf, rfl⟩, hpath⟩

end Spelling

theorem cgiArgument_resolves {host : Host} {fs : FileSystem} {argv : List Bytes} {cfg : Config}
    (h : setFlags host argv = .ok cfg)
    (hstat : ∀ i p, host.stat i p = (fs.tree.resolve p).toOption.bind fs.stat)
    {dir : Bytes} (hd : cgiArgument argv = some dir) : ∃ d, fs.tree.resolve dir = .ok d := by
  have ha := setFlags_addressState h
  obtain ⟨i, -, hdir⟩ := ha.directory dir (ha.last.trans hd)
  rw [hstat] at hdir
  cases hr : fs.tree.resolve dir with
  | error e =>
    rw [hr] at hdir
    cases hdir
  | ok d => exact ⟨d, rfl⟩

theorem cgiArgument_flag {host : Host} {argv : List Bytes} {cfg : Config}
    (h : setFlags host argv = .ok cfg) :
    cfg.appFlags.c = true ↔ (cgiArgument argv).isSome = true := by
  have ha := setFlags_addressState h
  rw [ha.cgi, ha.last]
  rfl

/-- The programs that a request runs are those of the configured directory if
and only if its path is spelled with `/cgi-bin/` exactly where it leads there. -/
theorem cgi_confined_iff (host : Host) (fs : FileSystem) (executable : Node → Bool)
    (argv : List Bytes) (cfg : Config) (base : Env) (round : ℕ) (c : Client) (buf : Bytes)
    (h : setFlags host argv = .ok cfg)
    (hstat : ∀ i p, host.stat i p = (fs.tree.resolve p).toOption.bind fs.stat)
    (hflags : base.flags = cfg.appFlags) :
    CgiConfined fs executable argv base round c buf ↔
      ∀ dir d, cgiArgument argv = some dir → fs.tree.resolve dir = .ok d →
        (parsed (fs.env base) c buf).ret = 0 →
        SpelledBelow fs executable base.cgi d
          (component (parsed (fs.env base) c buf).out.path) := by
  have hon := cgiArgument_flag h
  rw [← hflags] at hon
  constructor
  · intro hc dir d hdir hd hp
    have hflag : base.flags.c = true := hon.mpr (by rw [hdir]; rfl)
    constructor
    · intro hpre hpipe hfork hreads ⟨q, hq⟩
      obtain ⟨call, hcall, hpath⟩ :=
        (respond_runs_iff hp rfl).mpr ⟨hflag, hpre, hreads, hpipe, hfork⟩
      obtain ⟨dir', d', hdir', hd', hbelow⟩ := hc.below call q hcall (by rwa [hpath])
      rw [hdir] at hdir'
      cases hdir'
      rw [hd] at hd'
      cases hd'
      obtain ⟨st, hst, hf⟩ := hq.2.2
      rwa [program_node hp rfl hq.1 hst hf] at hbelow
    · intro hbelow ⟨q, hq⟩
      obtain ⟨st, hst, hf⟩ := hq.2
      have hnode := program_node hp rfl (FileSystem.fopen_ok.mp hq.1).1 hst hf
      have hres := hc.routed dir d q hdir hd hp hq (by rwa [hnode])
      exact ((resolved_cgi_iff rfl).mp hres).2
  · intro hs
    constructor
    · intro call q hcall hq
      have hp := (respond_execvp_iff.mp hcall).1
      have hpath := respond_execvp hp hcall
      rw [scriptPath_eq (parsed_target hp).noNul] at hpath
      obtain ⟨hflag, hpre, hreads, hpipe, hfork⟩ :=
        (respond_runs_iff hp rfl).mp ⟨call, hcall, hpath⟩
      obtain ⟨dir, hdir⟩ := Option.isSome_iff_exists.mp (hon.mp hflag)
      obtain ⟨d, hd⟩ := cgiArgument_resolves h hstat hdir
      rw [hpath] at hq
      have hbelow := (hs dir d hdir hd hp).runs hpre hpipe hfork hreads ⟨q, hq⟩
      obtain ⟨st, hst, hf⟩ := hq.2.2
      exact ⟨dir, d, hdir, hd, by rwa [program_node hp rfl hq.1 hst hf]⟩
    · intro dir d q hdir hd hp hq hbelow
      obtain ⟨st, hst, hf⟩ := hq.2
      have hnode := program_node hp rfl (FileSystem.fopen_ok.mp hq.1).1 hst hf
      have hflag : base.flags.c = true := hon.mpr (by rw [hdir]; rfl)
      exact (resolved_cgi_iff rfl).mpr
        ⟨hflag, (hs dir d hdir hd hp).routed (by rwa [← hnode]) ⟨q, hq⟩⟩
    · intro hnone call hcall
      have hflag := (respond_execvp_iff.mp hcall).2.2.2.1
      have hsome := hon.mp hflag
      rw [hnone] at hsome
      cases hsome

section TwoDirectories

def scriptsFs : FileSystem where
  tree := listed ⟨true, 0, 0⟩ ⟨false, 9, 0⟩ directory_isDir [[], [cgiDir], [ascii "scripts"]]
    [[cgiDir, ascii "x"], [ascii "scripts", ascii "y"]] [] (by decide) (by decide)
  readable _ := true
  contents _ := ascii "#!/bin/sh"
  entries _ := []

def scriptsHost : Host :=
  { localHost with stat := fun _ p => (scriptsFs.tree.resolve p).toOption.bind scriptsFs.stat }

def grantingEnv : Env := { workingEnv with cgi := ⟨true, true, true, [], true, .exited 0, true⟩ }

theorem cgi_confined_iff_cgi_bin :
    let argv := [ascii "sws", ascii "-c", ascii "scripts", ascii "-c", ascii "./cgi-bin"]
    let c := { blankClient with headerLen := 27 }
    let buf := ascii "GET /cgi-bin/x HTTP/1.0\r\n\r\n"
    (∃ cfg, setFlags scriptsHost argv = .ok cfg ∧ grantingEnv.flags = cfg.appFlags) ∧
      cgiArgument argv = some (ascii "./cgi-bin") ∧
      (parsed (scriptsFs.env grantingEnv) c buf).ret = 0 ∧
      CgiConfined scriptsFs (fun _ => true) argv grantingEnv 0 c buf := by
  intro argv c buf
  have harg : cgiArgument argv = some (ascii "./cgi-bin") := by decide +kernel
  have hp : (parsed (scriptsFs.env grantingEnv) c buf).ret = 0 := by decide +kernel
  have hpath : component (parsed (scriptsFs.env grantingEnv) c buf).out.path =
      ascii "/cgi-bin/x" := by
    decide +kernel
  obtain ⟨cfg, h, hflags⟩ : ∃ cfg, setFlags scriptsHost argv = .ok cfg ∧
      grantingEnv.flags = cfg.appFlags := ⟨_, rfl, rfl⟩
  refine ⟨⟨cfg, h, hflags⟩, harg, hp, (cgi_confined_iff scriptsHost scriptsFs (fun _ => true) argv
    cfg grantingEnv 0 c buf h (fun _ _ => rfl) hflags).mpr fun dir d hdir hd _ => ?_⟩
  rw [harg] at hdir
  cases hdir
  have hnode : scriptsFs.tree.resolve (ascii "./cgi-bin") = .ok [cgiDir] := by decide +kernel
  rw [hnode] at hd
  cases hd
  rw [hpath]
  exact ⟨fun _ _ _ _ _ => ⟨ascii "x", [], by decide +kernel⟩, fun _ _ => ⟨by decide +kernel,
    [cgiDir, ascii "x"], by decide +kernel, ⟨false, 9, 0⟩, by decide +kernel, rfl⟩⟩

/-- With `-c scripts`, the program that runs is one of `cgi-bin`, and the one
in `scripts` is sent as text. -/
theorem program_outside_directory :
    let argv := [ascii "sws", ascii "-c", ascii "scripts"]
    let c := { blankClient with headerLen := 27 }
    let buf := ascii "GET /cgi-bin/x HTTP/1.0\r\n\r\n"
    let buf' := ascii "GET /scripts/y HTTP/1.0\r\n\r\n"
    (∃ cfg, setFlags scriptsHost argv = .ok cfg ∧ grantingEnv.flags = cfg.appFlags) ∧
      ¬ CgiConfined scriptsFs (fun _ => true) argv grantingEnv 0 c buf ∧
      ¬ CgiConfined scriptsFs (fun _ => true) argv grantingEnv 0 c buf' := by
  intro argv c buf buf'
  have hnode : scriptsFs.tree.resolve (ascii "scripts") = .ok [ascii "scripts"] := by
    decide +kernel
  have hfile : ∃ st, scriptsFs.stat [ascii "scripts", ascii "y"] = some st ∧ st.isDir = false :=
    ⟨⟨false, 9, 0⟩, by decide +kernel, rfl⟩
  refine ⟨⟨_, rfl, rfl⟩, fun hc => ?_, fun hc => ?_⟩
  · have hruns : ∃ call, .execvp call ∈ (respond (scriptsFs.env grantingEnv) 0 c buf).events ∧
        call.path = ascii "./cgi-bin/x" :=
      (respond_runs_iff (by decide +kernel) (a := ascii "/cgi-bin/x") (by decide +kernel)).mpr
        ⟨rfl, by decide +kernel, ⟨[cgiDir, ascii "x"], by decide +kernel, ⟨false, 9, 0⟩,
          by decide +kernel, rfl⟩, rfl, rfl⟩
    obtain ⟨call, hcall, hpath⟩ := hruns
    have hex : Executes scriptsFs (fun _ => true) call.path [cgiDir, ascii "x"] := by
      rw [hpath]
      exact ⟨by decide +kernel, rfl, ⟨false, 9, 0⟩, by decide +kernel, rfl⟩
    obtain ⟨dir, d, hdir, hd, n, rest, hbelow⟩ := hc.below call _ hcall hex
    cases (show some (ascii "scripts") = some dir from hdir)
    rw [hnode] at hd
    cases hd
    have hhead := (List.cons.inj hbelow).1
    revert hhead
    decide +kernel
  · have hcgi := hc.routed (ascii "scripts") [ascii "scripts"] [ascii "scripts", ascii "y"]
      (by decide +kernel) hnode (by decide +kernel) ⟨by decide +kernel, hfile⟩
      ⟨ascii "y", [], rfl⟩
    revert hcgi
    decide +kernel

end TwoDirectories

end SimpleServer
