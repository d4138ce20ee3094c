import Mathlib.Data.List.Nodup
import SimpleServer.Flags.SetFlags
import SimpleServer.ServeSpec

/-!
# The configuration that `setFlags` leaves

`Applied` says once what an option does when it does not end the process.
Three invariants of a run over the options follow from it: the log file and
the two flags that name it agree with the last of `-v` and `-l`, every other
log file has been closed, and each address global is set together with its
flag. The port is the last `-p` modulo `2^32`, whatever its value.
-/

namespace SimpleServer

open CString FileTree Ledger

inductive Applied (host : Host) (cfg : Config) : Opt → Config → Prop
  | cgi {i : ℕ} {dir : Bytes} (hd : (host.stat i dir).any Stat.isDir = true) :
      Applied host cfg (.c i (some dir))
        { cfg with cgiAddr := some dir, appFlags := { cfg.appFlags with c := true } }
  | verbose : Applied host cfg .v (setVerbose cfg)
  | bind4 {addr : Bytes} (ha : host.inetPton4 addr = true) :
      Applied host cfg (.bind4 (some addr))
        { cfg with bindAddr4 := some addr, appFlags := { cfg.appFlags with b4 := true } }
  | bind6 {addr : Bytes} (ha : host.inetPton6 addr = true) :
      Applied host cfg (.bind6 (some addr))
        { cfg with bindAddr6 := some addr, appFlags := { cfg.appFlags with b6 := true } }
  | log {i : ℕ} {file : Bytes} :
      Applied host cfg (.l i (some file))
        { cfg with
          logAddr := some file
          ledger := cfg.ledger ++ closeLog cfg.logPtr ++ [.take (.opened i file)]
          logPtr := some (.opened i file)
          appFlags := { cfg.appFlags with l := true, v := false } }
  | port {w : Bytes} (hw : checkPortNumber w = true)
      (hroot : (atoi w).toInt ≤ 1024 → host.geteuid = 0) :
      Applied host cfg (.p (some w)) { cfg with portAddr := atoi w }

theorem applied_of_ok {host : Host} {cfg cfg' : Config} {o : Opt}
    (h : applyOption host cfg o = .ok cfg') : Applied host cfg o cfg' := by
  cases o with
  | v =>
    cases h
    exact .verbose
  | unknown arg => cases h
  | c i dir =>
    cases dir with
    | none => cases h
    | some dir =>
      simp only [applyOption, setCgi] at h
      split_ifs at h with hd
      cases h
      exact .cgi (by simpa using hd)
  | bind4 addr =>
    cases addr with
    | none => cases h
    | some addr =>
      simp only [applyOption, setBind4] at h
      split_ifs at h with hm ha
      cases h
      exact .bind4 (by simpa using ha)
  | bind6 addr =>
    cases addr with
    | none => cases h
    | some addr =>
      simp only [applyOption, setBind6] at h
      split_ifs at h with hm ha
      cases h
      exact .bind6 (by simpa using ha)
  | l i file =>
    cases file with
    | none => cases h
    | some file =>
      simp only [applyOption, setLog] at h
      split_ifs at h with hm ho
      cases h
      exact .log
  | p w =>
    cases w with
    | none => cases h
    | some w =>
      simp only [applyOption, setPort] at h
      split_ifs at h with hd hp
      cases h
      exact .port (by simpa using hd) fun hle => by
        by_contra hne
        exact hp ⟨hle, hne⟩

theorem setFlags_invariant {host : Host} {argv : List Bytes} {cfg : Config}
    {I : List Opt → Config → Prop}
    (hstep : ∀ os cfg o cfg', I os cfg → Applied host cfg o cfg' → I (os ++ [o]) cfg')
    (h0 : I [] .init) (h : setFlags host argv = .ok cfg) : I (options argv) cfg := by
  rw [setFlags_eq_run] at h
  exact Run.history (fun os cfg o cfg' hi ho => hstep os cfg o cfg' hi (applied_of_ok ho)) h0 h

def lastOf {α : Type} (f : Opt → Option α) (os : List Opt) : Option α := (os.filterMap f).getLast?

theorem lastOf_append {α : Type} (f : Opt → Option α) (os : List Opt) (o : Opt) :
    lastOf f (os ++ [o]) = (f o).or (lastOf f os) := by
  cases h : f o with
  | none => simp [lastOf, List.filterMap_append, h]
  | some a => simp [lastOf, List.filterMap_append, h]

section Logs

def Opt.logFile : Opt → Option LogFile
  | .v => some .stdout
  | .l i (some file) => some (.opened i file)
  | _ => none

def Opt.opened : Opt → Option LogFile
  | .l i (some file) => some (.opened i file)
  | _ => none

/-- What the last of `-v` and `-l` selected. -/
def lastLog (os : List Opt) : Option LogFile := lastOf Opt.logFile os

/-- The log file that has to be closed some time. -/
def ownedLog : Option LogFile → List LogFile
  | some (.opened i file) => [.opened i file]
  | _ => []

/-- `log_ptr`, the two flags and the books, after the options `os`. -/
structure LogState (os : List Opt) (cfg : Config) : Prop where
  ptr : cfg.logPtr = lastLog os
  verbose : cfg.appFlags.v = true ↔ cfg.logPtr = some .stdout
  logging : cfg.appFlags.l = true ↔ ∃ i file, cfg.logPtr = some (.opened i file)
  books : replay [] cfg.ledger = some (ownedLog cfg.logPtr)
  takes : ∀ f, cfg.ledger.count (.take f) = (os.filterMap Opt.opened).count f

variable {host : Host} {os : List Opt} {cfg cfg' : Config} {o : Opt}

theorem replay_closeLog (h : replay [] cfg.ledger = some (ownedLog cfg.logPtr)) :
    replay [] (cfg.ledger ++ closeLog cfg.logPtr) = some [] := by
  rw [replay_append_some h]
  match cfg.logPtr with
  | none => rfl
  | some .stdout => rfl
  | some (.opened i file) => exact replay_held_give _

theorem count_take_closeLog (f : LogFile) (p : Option LogFile) :
    (closeLog p).count (.take f) = 0 := by
  match p with
  | none => rfl
  | some .stdout => rfl
  | some (.opened i file) => simp [closeLog]

theorem LogState.frame (h : LogState os cfg) (hl : o.logFile = none) (ho : o.opened = none)
    (hptr : cfg'.logPtr = cfg.logPtr) (hv : cfg'.appFlags.v = cfg.appFlags.v)
    (hlf : cfg'.appFlags.l = cfg.appFlags.l) (hled : cfg'.ledger = cfg.ledger) :
    LogState (os ++ [o]) cfg' where
  ptr := by
    have hlast : lastLog (os ++ [o]) = lastLog os := by
      rw [lastLog, lastOf_append, hl, Option.none_or, lastLog]
    rw [hptr, h.ptr, hlast]
  verbose := by rw [hv, hptr, h.verbose]
  logging := by rw [hlf, hptr, h.logging]
  books := by rw [hled, hptr, h.books]
  takes f := by simp [hled, h.takes, List.filterMap_append, ho]

theorem LogState.step (h : LogState os cfg) (ha : Applied host cfg o cfg') :
    LogState (os ++ [o]) cfg' := by
  cases ha with
  | cgi hd => exact h.frame rfl rfl rfl rfl rfl rfl
  | bind4 ha => exact h.frame rfl rfl rfl rfl rfl rfl
  | bind6 ha => exact h.frame rfl rfl rfl rfl rfl rfl
  | port hw hroot => exact h.frame rfl rfl rfl rfl rfl rfl
  | verbose =>
    refine ⟨?_, ?_, ?_, replay_closeLog h.books, fun f => ?_⟩
    · rw [lastLog, lastOf_append]
      rfl
    · simp [setVerbose]
    · simp [setVerbose]
    · have hnone : [Opt.v].filterMap Opt.opened = [] := rfl
      simp [setVerbose, h.takes, count_take_closeLog, List.filterMap_append, hnone]
  | @log i file =>
    refine ⟨?_, ?_, ?_, ?_, fun f => ?_⟩
    · rw [lastLog, lastOf_append]
      rfl
    · simp
    · simp
    · exact (replay_append_some (replay_closeLog h.books)).trans (replay_take _)
    · by_cases hf : LogFile.opened i file = f
      · simp [h.takes, count_take_closeLog, List.filterMap_append, Opt.opened, hf]
      · simp [h.takes, count_take_closeLog, List.filterMap_append, Opt.opened, hf]

theorem setFlags_logState {argv : List Bytes} (h : setFlags host argv = .ok cfg) :
    LogState (options argv) cfg := by
  refine setFlags_invariant (fun os cfg o cfg' hi ha => hi.step ha) ?_ h
  exact ⟨rfl, by decide, by simp [Config.init], rfl, fun f => rfl⟩

structure OpenedFrom (i : ℕ) (fs : List LogFile) : Prop where
  later : ∀ f ∈ fs, ∃ j file, f = .opened j file ∧ i ≤ j
  distinct : fs.Nodup

theorem OpenedFrom.mono {i k : ℕ} {fs : List LogFile} (hik : i ≤ k) (h : OpenedFrom k fs) :
    OpenedFrom i fs := by
  refine ⟨fun f hf => ?_, h.distinct⟩
  obtain ⟨j, file, rfl, hj⟩ := h.later f hf
  exact ⟨j, file, rfl, hik.trans hj⟩

theorem OpenedFrom.cons {i : ℕ} {file : Bytes} {fs : List LogFile} (h : OpenedFrom (i + 2) fs) :
    OpenedFrom i (.opened i file :: fs) := by
  refine ⟨fun f hf => ?_, List.nodup_cons.mpr ⟨fun hm => ?_, h.distinct⟩⟩
  · rcases List.mem_cons.mp hf with rfl | hf
    · exact ⟨i, file, rfl, Nat.le_refl i⟩
    · exact (h.mono (Nat.le_add_right i 2)).later f hf
  · obtain ⟨j, file', he, hj⟩ := h.later _ hm
    cases he
    omega

theorem readOptions_opened (i : ℕ) (args : List Bytes) :
    OpenedFrom i ((readOptions i args).filterMap Opt.opened) := by
  have hnil : ∀ i, OpenedFrom i [] := fun i => ⟨by simp, List.nodup_nil⟩
  fun_induction readOptions i args with
  | case1 | case3 | case6 | case8 | case10 | case12 => exact hnil _
  | case2 i arg rest h ih => exact ih.mono (Nat.le_add_right i 1)
  | case4 i dir rest h ih => exact ih.mono (Nat.le_add_right i 2)
  | case5 i rest h hc ih => exact ih.mono (Nat.le_add_right i 1)
  | case7 i addr rest h hc hv ih => exact ih.mono (Nat.le_add_right i 2)
  | case9 i addr rest h hc hv h4 ih => exact ih.mono (Nat.le_add_right i 2)
  | case11 i file rest h hc hv h4 h6 ih => exact ih.cons
  | case13 i w rest h hc hv h4 h6 hl ih => exact ih.mono (Nat.le_add_right i 2)
  | case14 i arg rest h hc hv h4 h6 hl hp ih => exact ih.mono (Nat.le_add_right i 1)

theorem mem_opened {f : LogFile} :
    f ∈ os.filterMap Opt.opened ↔ ∃ i file, f = .opened i file ∧ .l i (some file) ∈ os := by
  rw [List.mem_filterMap]
  constructor
  · rintro ⟨o, ho, hf⟩
    cases o with
    | l i file =>
      cases file with
      | none => cases hf
      | some file =>
        cases hf
        exact ⟨i, file, rfl, ho⟩
    | _ => cases hf
  · rintro ⟨i, file, rfl, hm⟩
    exact ⟨_, hm, rfl⟩

theorem LogState.silent (h : LogState os cfg) (hv : cfg.appFlags.v = false)
    (hl : cfg.appFlags.l = false) : cfg.logPtr = none := by
  match hp : cfg.logPtr with
  | none => rfl
  | some .stdout =>
    rw [h.verbose.mpr hp] at hv
    cases hv
  | some (.opened i file) =>
    rw [h.logging.mpr ⟨i, file, hp⟩] at hl
    cases hl

theorem LogState.count_give (h : LogState os cfg) (f : LogFile) :
    (os.filterMap Opt.opened).count f =
      (ownedLog cfg.logPtr).count f + cfg.ledger.count (.give f) := by
  rw [← h.takes f]
  simpa using replay_count h.books f

theorem count_ownedLog (p : Option LogFile) (i : ℕ) (file : Bytes) :
    (ownedLog p).count (.opened i file) = if p = some (.opened i file) then 1 else 0 := by
  match p with
  | none => rfl
  | some .stdout => rfl
  | some (.opened j file') => simp [ownedLog, List.count_singleton]

theorem LogState.closed (h : LogState os cfg) (hn : (os.filterMap Opt.opened).Nodup)
    {i : ℕ} {file : Bytes} (hm : .l i (some file) ∈ os) :
    cfg.ledger.count (.take (.opened i file)) = 1 ∧
      cfg.ledger.count (.give (.opened i file)) =
        if cfg.logPtr = some (.opened i file) then 0 else 1 := by
  have hone : (os.filterMap Opt.opened).count (.opened i file) = 1 :=
    List.count_eq_one_of_mem hn (mem_opened.mpr ⟨i, file, rfl, hm⟩)
  have hgive := h.count_give (.opened i file)
  rw [hone, count_ownedLog] at hgive
  refine ⟨(h.takes _).trans hone, ?_⟩
  split_ifs at hgive ⊢ <;> omega

theorem LogState.opened (h : LogState os cfg) {f : LogFile}
    (hf : .take f ∈ cfg.ledger ∨ .give f ∈ cfg.ledger) :
    ∃ i file, f = .opened i file ∧ .l i (some file) ∈ os := by
  have hgive := h.count_give f
  rw [← mem_opened, ← List.count_pos_iff]
  rcases hf with hf | hf
  · rw [← h.takes f]
    exact List.count_pos_iff.mpr hf
  · have hpos := List.count_pos_iff.mpr hf
    omega

end Logs

section Addresses

variable {host : Host} {os : List Opt} {cfg cfg' : Config} {o : Opt}

def Opt.cgiDir : Opt → Option Bytes
  | .c _ (some dir) => some dir
  | _ => none

/-- Each address is set together with its flag, after it has passed its check. -/
structure AddressState (host : Host) (os : List Opt) (cfg : Config) : Prop where
  bind4 : cfg.appFlags.b4 = true ↔ cfg.bindAddr4.isSome = true
  passed4 : ∀ addr, cfg.bindAddr4 = some addr → host.inetPton4 addr = true
  bind6 : cfg.appFlags.b6 = true ↔ cfg.bindAddr6.isSome = true
  passed6 : ∀ addr, cfg.bindAddr6 = some addr → host.inetPton6 addr = true
  cgi : cfg.appFlags.c = true ↔ cfg.cgiAddr.isSome = true
  last : cfg.cgiAddr = lastOf Opt.cgiDir os
  directory : ∀ dir, cfg.cgiAddr = some dir →
    ∃ i, .c i (some dir) ∈ os ∧ (host.stat i dir).any Stat.isDir = true

theorem AddressState.step (h : AddressState host os cfg) (ha : Applied host cfg o cfg') :
    AddressState host (os ++ [o]) cfg' := by
  have hdir : ∀ dir, cfg.cgiAddr = some dir →
      ∃ i, .c i (some dir) ∈ os ++ [o] ∧ (host.stat i dir).any Stat.isDir = true := by
    intro dir hd
    obtain ⟨i, hi, hs⟩ := h.directory dir hd
    exact ⟨i, List.mem_append_left _ hi, hs⟩
  have hlast := lastOf_append Opt.cgiDir os o
  cases ha with
  | verbose => exact ⟨h.bind4, h.passed4, h.bind6, h.passed6, h.cgi, h.last.trans hlast.symm, hdir⟩
  | log => exact ⟨h.bind4, h.passed4, h.bind6, h.passed6, h.cgi, h.last.trans hlast.symm, hdir⟩
  | port hw hroot =>
    exact ⟨h.bind4, h.passed4, h.bind6, h.passed6, h.cgi, h.last.trans hlast.symm, hdir⟩
  | bind4 ha =>
    refine ⟨by simp, fun addr he => ?_, h.bind6, h.passed6, h.cgi, h.last.trans hlast.symm, hdir⟩
    cases he
    exact ha
  | bind6 ha =>
    refine ⟨h.bind4, h.passed4, by simp, fun addr he => ?_, h.cgi, h.last.trans hlast.symm, hdir⟩
    cases he
    exact ha
  | @cgi i dir hd =>
    refine ⟨h.bind4, h.passed4, h.bind6, h.passed6, by simp, hlast.symm, fun dir' he => ?_⟩
    cases he
    exact ⟨i, List.mem_append_right _ List.mem_cons_self, hd⟩

theorem setFlags_addressState {argv : List Bytes} (h : setFlags host argv = .ok cfg) :
    AddressState host (options argv) cfg := by
  refine setFlags_invariant (fun os cfg o cfg' hi ha => hi.step ha) ?_ h
  constructor <;> simp [Config.init, lastOf]

end Addresses

theorem doRead_logLine {env : Env} {round : ℕ} {rs : List RecvResult} {c : Client} {p : PollFd}
    {line : Bytes} (h : .logLine line ∈ (doRead env round rs c p).events) :
    env.flags.logging = true := by
  rcases doRead_cases env round rs c p with ⟨hr, -⟩ | ⟨buf, k, -, -, -, -, hr⟩
  · rw [hr] at h
    cases h
  · rw [hr] at h
    simp only [serve, List.mem_append] at h
    rcases h with (h | h) | h
    · cases respond_ofServe env round _ buf _ h
    · simp only [logServed] at h
      split_ifs at h with hl
      · exact hl
      · cases h
    · simp only [closeResolvePathPtr] at h
      split at h
      · cases List.mem_singleton.mp h
      · cases h

/-- Whatever the argument vector was, the flags and the globals agree. -/
theorem configuration_consistent (host : Host) (argv : List Bytes) (cfg : Config)
    (h : setFlags host argv = .ok cfg) :
    ¬ (cfg.appFlags.v = true ∧ cfg.appFlags.l = true) ∧
    cfg.logPtr = lastLog (options argv) ∧
    (cfg.appFlags.v = true ↔ cfg.logPtr = some .stdout) ∧
    (cfg.appFlags.l = true ↔ ∃ i file, cfg.logPtr = some (.opened i file)) ∧
    (cfg.appFlags.v = false → cfg.appFlags.l = false → cfg.logPtr = none) ∧
    (∀ i file, .l i (some file) ∈ options argv →
      cfg.ledger.count (.take (.opened i file)) = 1 ∧
      cfg.ledger.count (.give (.opened i file)) =
        if cfg.logPtr = some (.opened i file) then 0 else 1) ∧
    (∀ f, .take f ∈ cfg.ledger ∨ .give f ∈ cfg.ledger →
      ∃ i file, f = .opened i file ∧ .l i (some file) ∈ options argv) ∧
    AddressState host (options argv) cfg ∧
    ∀ env round rs c p line, env.flags = cfg.appFlags →
      .logLine line ∈ (doRead env round rs c p).events → cfg.logPtr ≠ none := by
  have hs := setFlags_logState h
  have hdistinct := (readOptions_opened 1 (argv.drop 1)).distinct
  refine ⟨?_, hs.ptr, hs.verbose, hs.logging, hs.silent, fun i file => hs.closed hdistinct,
    fun f => hs.opened, setFlags_addressState h, ?_⟩
  · rintro ⟨hv, hl⟩
    obtain ⟨i, file, he⟩ := hs.logging.mp hl
    rw [hs.verbose.mp hv] at he
    cases he
  · intro env round rs c p line hflags hline hnull
    have hlog := doRead_logLine hline
    rw [hflags, Flags.logging, Bool.or_eq_true] at hlog
    rcases hlog with hv | hl
    · rw [hs.verbose.mp hv] at hnull
      cases hnull
    · obtain ⟨i, file, he⟩ := hs.logging.mp hl
      rw [he] at hnull
      cases hnull

def localHost : Host where
  stat _ _ := some ⟨true, 0, 0⟩
  inetPton4 addr := addr == ascii "127.0.0.1"
  inetPton6 addr := addr == ascii "::1"
  fopen _ _ := true
  geteuid := 1000

theorem configuration_consistent_two_logs :
    let argv := [ascii "sws", ascii "-l", ascii "a", ascii "-v", ascii "-l", ascii "b",
      ascii "-bind4", ascii "127.0.0.1"]
    ∃ cfg, setFlags localHost argv = .ok cfg ∧ cfg.logPtr = some (.opened 4 (ascii "b")) ∧
      cfg.ledger.count (.give (.opened 1 (ascii "a"))) = 1 := by
  intro argv
  obtain ⟨cfg, h, hptr⟩ : ∃ cfg, setFlags localHost argv = .ok cfg ∧
      cfg.logPtr = some (.opened 4 (ascii "b")) := ⟨_, rfl, rfl⟩
  obtain ⟨-, -, -, -, -, hclosed, -⟩ := configuration_consistent localHost argv cfg h
  have hgive := (hclosed 1 (ascii "a") (by decide +kernel)).2
  rw [hptr, if_neg (by decide)] at hgive
  exact ⟨cfg, h, hptr, hgive⟩

section Port

def Opt.port : Opt → Option Bytes
  | .p (some w) => some w
  | _ => none

def lastPort (argv : List Bytes) : Option Bytes := lastOf Opt.port (options argv)

variable {host : Host} {os : List Opt} {cfg cfg' : Config} {o : Opt}

structure PortState (host : Host) (os : List Opt) (cfg : Config) : Prop where
  port : cfg.portAddr = ((lastOf Opt.port os).map atoi).getD 8080
  digits : ∀ w, lastOf Opt.port os = some w → checkPortNumber w = true
  root : ∀ w, lastOf Opt.port os = some w → (atoi w).toInt ≤ 1024 → host.geteuid = 0

theorem PortState.frame (h : PortState host os cfg) (ho : o.port = none)
    (hp : cfg'.portAddr = cfg.portAddr) : PortState host (os ++ [o]) cfg' := by
  have hlast : lastOf Opt.port (os ++ [o]) = lastOf Opt.port os := by
    rw [lastOf_append, ho, Option.none_or]
  constructor
  · rw [hp, hlast, h.port]
  · rw [hlast]
    exact h.digits
  · rw [hlast]
    exact h.root

theorem PortState.step (h : PortState host os cfg) (ha : Applied host cfg o cfg') :
    PortState host (os ++ [o]) cfg' := by
  cases ha with
  | cgi hd => exact h.frame rfl rfl
  | verbose => exact h.frame rfl rfl
  | bind4 ha => exact h.frame rfl rfl
  | bind6 ha => exact h.frame rfl rfl
  | log => exact h.frame rfl rfl
  | @port w hw hroot =>
    have hlast : lastOf Opt.port (os ++ [.p (some w)]) = some w := lastOf_append _ os _
    constructor
    · rw [hlast]
      rfl
    · rintro w' he
      cases hlast.symm.trans he
      exact hw
    · rintro w' he
      cases hlast.symm.trans he
      exact hroot

theorem setFlags_portState {argv : List Bytes} (h : setFlags host argv = .ok cfg) :
    PortState host (options argv) cfg := by
  refine setFlags_invariant (fun os cfg o cfg' hi ha => hi.step ha) ?_ h
  constructor <;> simp [Config.init, lastOf]

/-- The listener is told the port that was asked for. -/
structure HonoursPort (host : Host) (cfg : Config) (w : Bytes) : Prop where
  digits : w ≠ [] ∧ ∀ b ∈ w, isDigit b = true
  range : 1 ≤ decimalValue w ∧ decimalValue w ≤ 65535
  privileged : decimalValue w ≤ 1024 → host.geteuid = 0
  v4 : ∃ a, getListenerV4 host cfg = some a ∧ a.port.toNat = decimalValue w
  v6 : ∃ a, getListenerV6 host cfg = some a ∧ a.port.toNat = decimalValue w

theorem atoi_digits {w : Bytes} (h : checkPortNumber w = true) :
    atoi w = BitVec.ofNat 32 (decimalValue w) := by
  rw [atoi, List.takeWhile_eq_self_iff.mpr (List.all_eq_true.mp h)]

theorem getListener_port {bound : Bool} {inetPton : Bytes → Bool} {bindAddr : Option Bytes}
    {port : BitVec 32} (hb : bound = true → bindAddr.isSome = true)
    (hp : ∀ a, bindAddr = some a → inetPton a = true) :
    ∃ a, getListener bound inetPton bindAddr port = some a ∧ a.port = htons port := by
  cases bound with
  | false => exact ⟨_, rfl, rfl⟩
  | true =>
    obtain ⟨a, ha⟩ := Option.isSome_iff_exists.mp (hb rfl)
    refine ⟨⟨bindAddr, htons port⟩, ?_, rfl⟩
    simp [getListener, ha, hp a ha]

/-- Where `setFlags` returns, the port of the last `-p` is the one that is
listened on if and only if its string is not empty and its number is not zero
and has no more than 16 bits. -/
theorem port_honoured_iff (host : Host) (argv : List Bytes) (cfg : Config) (w : Bytes)
    (h : setFlags host argv = .ok cfg) (hw : lastPort argv = some w) :
    HonoursPort host cfg w ↔ w ≠ [] ∧ decimalValue w ≠ 0 ∧ decimalValue w < 2 ^ 16 := by
  have hs := setFlags_portState h
  have ha := setFlags_addressState h
  have hdigits := hs.digits w hw
  have hport : cfg.portAddr = BitVec.ofNat 32 (decimalValue w) := by
    rw [hs.port, show lastOf Opt.port (options argv) = some w from hw, ← atoi_digits hdigits]
    rfl
  constructor
  · intro hh
    have hr := hh.range
    exact ⟨hh.digits.1, by omega, by omega⟩
  · rintro ⟨hne, hpos, hlt⟩
    have hval : (htons cfg.portAddr).toNat = decimalValue w := by
      rw [hport, htons, BitVec.toNat_setWidth, BitVec.toNat_ofNat]
      omega
    have hint : (atoi w).toInt = decimalValue w := by
      have hnat : (BitVec.ofNat 32 (decimalValue w)).toNat = decimalValue w := by
        rw [BitVec.toNat_ofNat]
        omega
      rw [atoi_digits hdigits, BitVec.toInt_eq_toNat_of_lt (by omega), hnat]
    obtain ⟨a4, h4, hp4⟩ := getListener_port ha.bind4.mp ha.passed4
    obtain ⟨a6, h6, hp6⟩ := getListener_port ha.bind6.mp ha.passed6
    refine ⟨⟨hne, List.all_eq_true.mp hdigits⟩, by omega, fun hle => ?_, ⟨a4, h4, ?_⟩,
      ⟨a6, h6, ?_⟩⟩
    · exact hs.root w hw (by omega)
    · rw [hp4, hval]
    · rw [hp6, hval]

end Port

theorem port_honoured_iff_8081 :
    let argv := [ascii "sws", ascii "-p", ascii "0", ascii "-p", ascii "8081"]
    ∃ cfg, setFlags { localHost with geteuid := 0 } argv = .ok cfg ∧
      lastPort argv = some (ascii "8081") ∧
      HonoursPort { localHost with geteuid := 0 } cfg (ascii "8081") := by
  intro argv
  obtain ⟨cfg, h⟩ : ∃ cfg, setFlags { localHost with geteuid := 0 } argv = .ok cfg := ⟨_, rfl⟩
  have hw : lastPort argv = some (ascii "8081") := by decide +kernel
  exact ⟨cfg, h, hw, (port_honoured_iff _ argv cfg _ h hw).mpr (by decide +kernel)⟩

/-- A number of 17 bits is accepted and another port is listened on; root may
also give no number at all. -/
theorem large_port_truncated :
    (∃ cfg, setFlags localHost [ascii "sws", ascii "-p", ascii "70000"] = .ok cfg ∧
      lastPort [ascii "sws", ascii "-p", ascii "70000"] = some (ascii "70000") ∧
      (∃ a, getListenerV4 localHost cfg = some a ∧ a.port.toNat = 4464) ∧
      ¬ HonoursPort localHost cfg (ascii "70000")) ∧
    ∃ cfg, setFlags { localHost with geteuid := 0 } [ascii "sws", ascii "-p", []] = .ok cfg ∧
      lastPort [ascii "sws", ascii "-p", []] = some [] ∧ cfg.portAddr = 0 ∧
      ¬ HonoursPort { localHost with geteuid := 0 } cfg [] :=
  ⟨⟨_, rfl, by decide +kernel, ⟨_, rfl, by decide +kernel⟩, fun hh => by
      have hr := hh.range.2
      revert hr
      decide +kernel⟩,
    ⟨_, rfl, by decide +kernel, rfl, fun hh => hh.digits.1 rfl⟩⟩

end SimpleServer
