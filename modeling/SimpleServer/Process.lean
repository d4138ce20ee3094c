import SimpleServer.Configuration
import SimpleServer.Descriptors

/-!
# The whole process, from `argv` to its exit

`main` reads its options, opens the listeners, runs the event loop until a
signal stops it, and closes what it holds. A `World` is what the kernel and the
libraries answer on the way. Every exit before the event loop carries the text
that is printed for it. `daemon` only moves the process to a child, and its
answer is not looked at; the child is the process here.

`get_listener_v4` and `get_listener_v6` leave their socket open where they
return -1. That this never happens, and that `main` never finds itself without
a listener, rests on `setFlags` having asked `inet_pton` before.
-/

namespace SimpleServer

open CString FileTree SlotArray Ledger

inductive Family where
  | v4
  | v6
  deriving DecidableEq, Repr

/-- What the kernel answers to the calls that make one listener. -/
structure ListenerCalls where
  socket : Option ℕ
  fcntl : Bool
  bind : SockAddr → Bool
  getsockname : Bool
  listen : Bool

structure ListenerTexts where
  socket : Bytes
  fcntl : Bytes
  invalid : Bytes
  bind : Bytes
  getsockname : Bytes
  listen : Bytes

/-- What is returned, `none` being -1, with the address that was bound, the
descriptors taken and the text printed. -/
structure Listener where
  fd : Option ℕ
  addr : Option SockAddr
  ledger : List (Ledger.Entry ℕ)
  said : Bytes

def Listener.unused : Listener := ⟨none, none, [], []⟩

def openListener (texts : ListenerTexts) (k : ListenerCalls) (sockAddr : Option SockAddr)
    (bindAddr : Option Bytes) : Except Bytes Listener :=
  match k.socket with
  | none => .error texts.socket
  | some fd =>
    if k.fcntl = false then .error texts.fcntl
    else match sockAddr with
      | none => .ok ⟨none, none, [.take fd], texts.invalid⟩
      | some a =>
        if k.bind a = false then
          .error (texts.bind ++ bindAddr.getD (ascii "(null)") ++
            ascii " not assigned to local interface\n")
        else if k.getsockname = false then .error texts.getsockname
        else if k.listen = false then .error texts.listen
        else .ok ⟨some fd, some a, [.take fd], []⟩

/-- A failing `listen` is reported in verbose mode only. -/
def textsV4 (flags : Flags) : ListenerTexts where
  socket := ascii "opening IPv4 sock stream"
  fcntl := ascii "fcntl O_NONBLOCK listener_v4"
  invalid := ascii "invalid ipv4 address\n"
  bind := ascii "bind listener_v4"
  getsockname := ascii "getting listener_v4 name"
  listen := if flags.v then ascii "listen listener_v4" else []

def textsV6 : ListenerTexts where
  socket := ascii "opening IPv6 sock stream"
  fcntl := ascii "fcntl O_NONBLOCK listener_v6"
  invalid := ascii "invalid ipv6 bind address\n"
  bind := ascii "bind listener_v6"
  getsockname := ascii "getting listener_v6 name"
  listen := ascii "listen listener_v6"

def getListenerV4Fd (host : Host) (cfg : Config) (k : ListenerCalls) : Except Bytes Listener :=
  openListener (textsV4 cfg.appFlags) k (getListenerV4 host cfg) cfg.bindAddr4

def getListenerV6Fd (host : Host) (cfg : Config) (k : ListenerCalls) : Except Bytes Listener :=
  openListener textsV6 k (getListenerV6 host cfg) cfg.bindAddr6

def useV4 (flags : Flags) : Bool := flags.b4 || !flags.b6

def useV6 (flags : Flags) : Bool := flags.b6 || !flags.b4

structure World where
  host : Host
  sigterm : Bool
  sigint : Bool
  magicLoad : Bool
  mallocPfds : Bool
  mallocClients : Bool
  pfds : ℕ → PollFd
  clients : ℕ → Client
  v4 : ListenerCalls
  v6 : ListenerCalls
  answers : List PollAnswer

structure Stop where
  halt : Halt
  said : Bytes
  deriving DecidableEq, Repr

structure Started where
  cfg : Config
  v4 : Listener
  v6 : Listener
  server : Server

def exitFailure {α : Type} (said : Bytes) : Except Stop α := .error ⟨.exit .failure, said⟩

def listenOn (w : World) (cfg : Config) : Except Stop Started :=
  match if useV4 cfg.appFlags then getListenerV4Fd w.host cfg w.v4 else .ok .unused with
  | .error said => exitFailure said
  | .ok v4 =>
    match if useV6 cfg.appFlags then getListenerV6Fd w.host cfg w.v6 else .ok .unused with
    | .error said => exitFailure said
    | .ok v6 =>
      match setup w.pfds w.clients v4.fd v6.fd with
      | .error e => .error ⟨.exit e, ascii "no listeners could be created; exiting\n"⟩
      | .ok s => .ok ⟨cfg, v4, v6, s⟩

def startUp (w : World) (argv : List Bytes) : Except Stop Started :=
  if w.sigterm = false then exitFailure (ascii "sigaction SIGTERM. ")
  else if w.sigint = false then exitFailure (ascii "sigaction SIGINT. ")
  else match setFlags w.host argv with
    | .error said => exitFailure said
    | .ok cfg =>
      if w.magicLoad = false then exitFailure []
      else if w.mallocPfds = false ∨ w.mallocClients = false then exitFailure (ascii "malloc")
      else listenOn w cfg

/-- `app_flags` is a global: every request is served under the options of `argv`. -/
def PollAnswer.under (flags : Flags) : PollAnswer → PollAnswer
  | .ready r => .ready { r with env := fun fd => { r.env fd with flags := flags } }
  | a => a

/-- What a process has taken and given back when it exits by itself. -/
structure Accounts where
  sockets : List (Ledger.Entry ℕ)
  logs : List (Ledger.Entry LogFile)

/-- Behind the event loop: the clients, the listeners and the log are closed,
the log also where it is `stdout`. Closing a listener that is -1 does nothing. -/
def main (w : World) (argv : List Bytes) : Except Stop Accounts :=
  match startUp w argv with
  | .error x => .error x
  | .ok st =>
    let answers := w.answers.map (PollAnswer.under st.cfg.appFlags)
    match eventLoop st.server answers with
    | .error x => .error ⟨x, []⟩
    | .ok s =>
      match shutdownLoop (s.table.fdCount - s.numListeners) s s.numListeners with
      | .error x => .error ⟨x, []⟩
      | .ok s' => .ok
        { sockets := st.v4.ledger ++ st.v6.ledger ++ runLedger st.server answers ++
            (closed (s'.trace.drop s.trace.length)).map .give ++
            (st.v4.fd.toList ++ st.v6.fd.toList).map .give
          logs := st.cfg.ledger ++ st.cfg.logPtr.toList.map .give }

def Opt.bind4Addr : Opt → Option Bytes
  | .bind4 (some addr) => some addr
  | _ => none

def Opt.bind6Addr : Opt → Option Bytes
  | .bind6 (some addr) => some addr
  | _ => none

/-- What the options ask to listen on: both wildcards where no address is
given, and else the last address of each family that has one. A port has 16
bits, so of a number from 65536 on it is the remainder. -/
def wantedListeners (os : List Opt) : List (Family × SockAddr) :=
  let port := BitVec.ofNat 16 (((lastOf Opt.port os).map decimalValue).getD 8080)
  let given := (lastOf Opt.bind4Addr os).toList.map (fun a => (Family.v4, SockAddr.mk (some a) port))
    ++ (lastOf Opt.bind6Addr os).toList.map (fun a => (Family.v6, SockAddr.mk (some a) port))
  if given = [] then [(.v4, ⟨none, port⟩), (.v6, ⟨none, port⟩)] else given

def World.calls (w : World) : Family → ListenerCalls
  | .v4 => w.v4
  | .v6 => w.v6

structure ListenerCalls.Grants (k : ListenerCalls) (a : SockAddr) : Prop where
  socket : k.socket ≠ none
  fcntl : k.fcntl = true
  bind : k.bind a = true
  getsockname : k.getsockname = true
  listen : k.listen = true

section Options

variable {host : Host} {os : List Opt} {cfg cfg' : Config} {o : Opt}

structure BindState (os : List Opt) (cfg : Config) : Prop where
  addr4 : cfg.bindAddr4 = lastOf Opt.bind4Addr os
  addr6 : cfg.bindAddr6 = lastOf Opt.bind6Addr os

theorem BindState.step (h : BindState os cfg) (ha : Applied host cfg o cfg') :
    BindState (os ++ [o]) cfg' := by
  have h4 := lastOf_append Opt.bind4Addr os o
  have h6 := lastOf_append Opt.bind6Addr os o
  cases ha with
  | cgi hd => exact ⟨h.addr4.trans h4.symm, h.addr6.trans h6.symm⟩
  | verbose => exact ⟨h.addr4.trans h4.symm, h.addr6.trans h6.symm⟩
  | log => exact ⟨h.addr4.trans h4.symm, h.addr6.trans h6.symm⟩
  | port hw hroot => exact ⟨h.addr4.trans h4.symm, h.addr6.trans h6.symm⟩
  | bind4 ha => exact ⟨h4.symm, h.addr6.trans h6.symm⟩
  | bind6 ha => exact ⟨h.addr4.trans h4.symm, h6.symm⟩

theorem setFlags_bindState {argv : List Bytes} (h : setFlags host argv = .ok cfg) :
    BindState (options argv) cfg := by
  refine setFlags_invariant (fun os cfg o cfg' hi ha => hi.step ha) ?_ h
  constructor <;> simp [Config.init, lastOf]

theorem setFlags_port {argv : List Bytes} (h : setFlags host argv = .ok cfg) :
    htons cfg.portAddr =
      BitVec.ofNat 16 (((lastOf Opt.port (options argv)).map decimalValue).getD 8080) := by
  have hp := setFlags_portState h
  rw [hp.port]
  cases hw : lastOf Opt.port (options argv) with
  | none => rfl
  | some w =>
    have hdigits := atoi_digits (hp.digits w hw)
    simp only [Option.map_some, Option.getD_some, hdigits, htons]
    exact BitVec.setWidth_ofNat_of_le (by decide) _

theorem getListener_of_passed {bound : Bool} {inetPton : Bytes → Bool} {bindAddr : Option Bytes}
    {port : BitVec 32} (hb : bound = true ↔ bindAddr.isSome = true)
    (hp : ∀ a, bindAddr = some a → inetPton a = true) :
    getListener bound inetPton bindAddr port = some ⟨bindAddr, htons port⟩ := by
  cases hbind : bindAddr with
  | none =>
    have hbound : bound = false := by
      rw [hbind] at hb
      simpa using hb
    rw [hbound]
    rfl
  | some a =>
    have hbound : bound = true := hb.mpr (by rw [hbind]; rfl)
    simp [getListener, hbound, hp a hbind]

end Options

def ListenerCalls.made (k : ListenerCalls) : Option SockAddr → Listener
  | none => .unused
  | some a => ⟨k.socket, some a, k.socket.toList.map .take, []⟩

def Config.wanted (cfg : Config) (use : Bool) (bindAddr : Option Bytes) : Option SockAddr :=
  if use then some ⟨bindAddr, htons cfg.portAddr⟩ else none

section Listeners

variable {texts : ListenerTexts} {k : ListenerCalls} {a : SockAddr} {bindAddr : Option Bytes}
  {l : Listener}

theorem openListener_iff : openListener texts k (some a) bindAddr = .ok l ↔
    k.Grants a ∧ l = k.made (some a) := by
  constructor
  · intro h
    simp only [openListener] at h
    split at h
    · cases h
    · rename_i fd hfd
      split_ifs at h with h1 h2 h3 h4
      cases h
      refine ⟨⟨by simp [hfd], by simpa using h1, by simpa using h2, by simpa using h3,
        by simpa using h4⟩, ?_⟩
      simp [ListenerCalls.made, hfd]
  · intro ⟨h, hl⟩
    obtain ⟨fd, hfd⟩ := Option.ne_none_iff_exists'.mp h.socket
    simp [openListener, ListenerCalls.made, hfd, h.fcntl, h.bind, h.getsockname, h.listen, hl]

theorem listen_iff {cfg : Config} {use : Bool} :
    (if use then openListener texts k (some ⟨bindAddr, htons cfg.portAddr⟩) bindAddr
      else .ok .unused) = .ok l ↔
    (∀ a ∈ cfg.wanted use bindAddr, k.Grants a) ∧ l = k.made (cfg.wanted use bindAddr) := by
  cases use with
  | false => simp [Config.wanted, ListenerCalls.made, eq_comm]
  | true => simpa [Config.wanted] using openListener_iff

end Listeners

section StartUp

variable {w : World} {argv : List Bytes} {cfg : Config} {st : Started}

theorem useV4_or_useV6 (flags : Flags) : useV4 flags = true ∨ useV6 flags = true := by
  rw [useV4, useV6]
  cases flags.b4 <;> cases flags.b6 <;> simp

theorem wantedListeners_eq (h : setFlags w.host argv = .ok cfg) :
    wantedListeners (options argv) =
      (cfg.wanted (useV4 cfg.appFlags) cfg.bindAddr4).toList.map (Prod.mk .v4) ++
        (cfg.wanted (useV6 cfg.appFlags) cfg.bindAddr6).toList.map (Prod.mk .v6) := by
  have hb := setFlags_bindState h
  have ha := setFlags_addressState h
  have hp := setFlags_port h
  rw [wantedListeners, ← hb.addr4, ← hb.addr6, ← hp, useV4, useV6]
  have h4 : cfg.appFlags.b4 = cfg.bindAddr4.isSome := Bool.eq_iff_iff.mpr ha.bind4
  have h6 : cfg.appFlags.b6 = cfg.bindAddr6.isSome := Bool.eq_iff_iff.mpr ha.bind6
  rw [h4, h6]
  cases cfg.bindAddr4 <;> cases cfg.bindAddr6 <;> rfl

theorem listenOn_iff (h : setFlags w.host argv = .ok cfg) : listenOn w cfg = .ok st ↔
    (∀ l ∈ wantedListeners (options argv), (w.calls l.1).Grants l.2) ∧ st.cfg = cfg ∧
      st.v4 = w.v4.made (cfg.wanted (useV4 cfg.appFlags) cfg.bindAddr4) ∧
      st.v6 = w.v6.made (cfg.wanted (useV6 cfg.appFlags) cfg.bindAddr6) ∧
      setup w.pfds w.clients st.v4.fd st.v6.fd = .ok st.server := by
  have ha := setFlags_addressState h
  have h4 : getListenerV4 w.host cfg = some ⟨cfg.bindAddr4, htons cfg.portAddr⟩ :=
    getListener_of_passed ha.bind4 ha.passed4
  have h6 : getListenerV6 w.host cfg = some ⟨cfg.bindAddr6, htons cfg.portAddr⟩ :=
    getListener_of_passed ha.bind6 ha.passed6
  have hgrants : (∀ l ∈ wantedListeners (options argv), (w.calls l.1).Grants l.2) ↔
      (∀ a ∈ cfg.wanted (useV4 cfg.appFlags) cfg.bindAddr4, w.v4.Grants a) ∧
        ∀ a ∈ cfg.wanted (useV6 cfg.appFlags) cfg.bindAddr6, w.v6.Grants a := by
    rw [wantedListeners_eq h]
    simp [List.mem_append, or_imp, forall_and, World.calls]
  rw [hgrants, listenOn, getListenerV4Fd, getListenerV6Fd, h4, h6]
  constructor
  · intro hok
    split at hok
    · cases hok
    rename_i v4 hv4
    split at hok
    · cases hok
    rename_i v6 hv6
    split at hok
    · cases hok
    rename_i s hs
    cases hok
    obtain ⟨g4, e4⟩ := listen_iff.mp hv4
    obtain ⟨g6, e6⟩ := listen_iff.mp hv6
    exact ⟨⟨g4, g6⟩, rfl, e4, e6, hs⟩
  · intro ⟨⟨g4, g6⟩, hcfg, e4, e6, hs⟩
    rw [listen_iff.mpr ⟨g4, rfl⟩, listen_iff.mpr ⟨g6, rfl⟩, ← e4, ← e6]
    simp only [hs]
    rw [← hcfg]

theorem setup_of_granted (h : setFlags w.host argv = .ok cfg)
    (hg : ∀ l ∈ wantedListeners (options argv), (w.calls l.1).Grants l.2) :
    ∃ s, setup w.pfds w.clients
      (w.v4.made (cfg.wanted (useV4 cfg.appFlags) cfg.bindAddr4)).fd
      (w.v6.made (cfg.wanted (useV6 cfg.appFlags) cfg.bindAddr6)).fd = .ok s := by
  rw [wantedListeners_eq h] at hg
  have hsome : (w.v4.made (cfg.wanted (useV4 cfg.appFlags) cfg.bindAddr4)).fd ≠ none ∨
      (w.v6.made (cfg.wanted (useV6 cfg.appFlags) cfg.bindAddr6)).fd ≠ none := by
    rcases useV4_or_useV6 cfg.appFlags with hu | hu
    · left
      rw [hu] at hg ⊢
      exact (hg (.v4, _) (List.mem_append_left _ List.mem_cons_self)).socket
    · right
      rw [hu] at hg ⊢
      exact (hg (.v6, _) (List.mem_append_right _ List.mem_cons_self)).socket
  refine ⟨_, if_neg ?_⟩
  rw [List.length_append, Option.length_toList, Option.length_toList]
  rcases hsome with hs | hs
  · simp [Option.isSome_iff_ne_none.mpr hs]
  · simp [Option.isSome_iff_ne_none.mpr hs]

theorem startUp_iff : startUp w argv = .ok st ↔
    w.sigterm = true ∧ w.sigint = true ∧ w.magicLoad = true ∧ w.mallocPfds = true ∧
      w.mallocClients = true ∧ setFlags w.host argv = .ok st.cfg ∧ listenOn w st.cfg = .ok st := by
  rw [startUp]
  constructor
  · intro h
    split at h
    · cases h
    rename_i h1
    split at h
    · cases h
    rename_i h2
    split at h
    · cases h
    rename_i cfg hcfg
    split at h
    · cases h
    rename_i h3
    split at h
    · cases h
    rename_i h4
    obtain ⟨-, hc, -⟩ := (listenOn_iff hcfg).mp h
    rw [not_or] at h4
    rw [hc]
    exact ⟨by simpa using h1, by simpa using h2, by simpa using h3, by simpa using h4.1,
      by simpa using h4.2, hcfg, h⟩
  · intro ⟨h1, h2, h3, h4, h5, hcfg, hl⟩
    simp [h1, h2, h3, h4, h5, hcfg, hl]

end StartUp

def Started.listening (st : Started) : List (Family × ℕ × SockAddr) :=
  (st.v4.fd.toList.zip st.v4.addr.toList).map (Prod.mk .v4) ++
    (st.v6.fd.toList.zip st.v6.addr.toList).map (Prod.mk .v6)

section Listening

variable {k : ListenerCalls} {want : Option SockAddr}

theorem made_zip (hg : ∀ a ∈ want, k.Grants a) :
    ((k.made want).fd.toList.zip (k.made want).addr.toList).map Prod.snd = want.toList ∧
      ((k.made want).fd.toList.zip (k.made want).addr.toList).map Prod.fst =
        (k.made want).fd.toList ∧
      ∀ x ∈ (k.made want).fd.toList.zip (k.made want).addr.toList, k.socket = some x.1 := by
  cases want with
  | none => simp [ListenerCalls.made, Listener.unused]
  | some a =>
    obtain ⟨fd, hfd⟩ := Option.ne_none_iff_exists'.mp (hg a rfl).socket
    simp [ListenerCalls.made, hfd]

theorem setup_slots {pfds : ℕ → PollFd} {clients : ℕ → Client} {v4 v6 : Option ℕ} {s : Server}
    (h : setup pfds clients v4 v6 = .ok s) :
    (live s.table.slot 0 s.numListeners).map Prod.fst =
      (v4.toList ++ v6.toList).map fun fd => ⟨fd, pollIn, 0⟩ := by
  simp only [setup] at h
  split_ifs at h
  cases h
  cases v4 <;> cases v6 <;> rfl

end Listening

def busyWorld : World where
  host := localHost
  sigterm := true
  sigint := true
  magicLoad := true
  mallocPfds := true
  mallocClients := true
  pfds _ := ⟨0, 0, 0⟩
  clients _ := blankClient
  v4 := ⟨some 3, true, fun _ => true, true, true⟩
  v6 := ⟨some 4, true, fun _ => true, true, true⟩
  answers :=
    [.ready { acceptRound [] with
        accepts := fun _ => [.conn ⟨7, true, ⟨true, true⟩, none⟩, .fail .EINTR,
          .conn ⟨8, false, ⟨true, true⟩, none⟩, .conn ⟨8, true, ⟨true, true⟩, none⟩] },
      .eintr,
      .ready { readRound listingEnv getRoot with revents := fun i => if i = 2 then pollIn else 0 },
      .ready (writeRound [.ret 1000])]

/-- A process starts exactly when its options are accepted and every call it
makes succeeds, and then it listens on what its options ask for and on nothing
else. -/
theorem process_listens_as_asked (w : World) (argv : List Bytes) :
    ((∃ st, startUp w argv = .ok st) ↔
      w.sigterm = true ∧ w.sigint = true ∧ w.magicLoad = true ∧ w.mallocPfds = true ∧
        w.mallocClients = true ∧ (∃ cfg, setFlags w.host argv = .ok cfg) ∧
        ∀ l ∈ wantedListeners (options argv), (w.calls l.1).Grants l.2) ∧
    ∀ st, startUp w argv = .ok st →
      st.listening.map (fun l => (l.1, l.2.2)) = wantedListeners (options argv) ∧
      (∀ l ∈ st.listening, (w.calls l.1).socket = some l.2.1) ∧
      (live st.server.table.slot 0 st.server.numListeners).map Prod.fst =
        st.listening.map fun l => ⟨l.2.1, pollIn, 0⟩ := by
  refine ⟨⟨?_, ?_⟩, ?_⟩
  · intro ⟨st, h⟩
    obtain ⟨h1, h2, h3, h4, h5, hcfg, hl⟩ := startUp_iff.mp h
    exact ⟨h1, h2, h3, h4, h5, ⟨st.cfg, hcfg⟩, ((listenOn_iff hcfg).mp hl).1⟩
  · intro ⟨h1, h2, h3, h4, h5, ⟨cfg, hcfg⟩, hg⟩
    obtain ⟨s, hs⟩ := setup_of_granted hcfg hg
    exact ⟨⟨cfg, _, _, s⟩, startUp_iff.mpr
      ⟨h1, h2, h3, h4, h5, hcfg, (listenOn_iff hcfg).mpr ⟨hg, rfl, rfl, rfl, hs⟩⟩⟩
  · intro st h
    obtain ⟨-, -, -, -, -, hcfg, hl⟩ := startUp_iff.mp h
    obtain ⟨hg, -, e4, e6, hs⟩ := (listenOn_iff hcfg).mp hl
    rw [wantedListeners_eq hcfg] at hg ⊢
    obtain ⟨ha4, hf4, hs4⟩ := made_zip (k := w.v4)
      fun a ha => hg (.v4, a) (List.mem_append_left _ (List.mem_map_of_mem (by simpa using ha)))
    obtain ⟨ha6, hf6, hs6⟩ := made_zip (k := w.v6)
      fun a ha => hg (.v6, a) (List.mem_append_right _ (List.mem_map_of_mem (by simpa using ha)))
    rw [← e4] at ha4 hf4 hs4
    rw [← e6] at ha6 hf6 hs6
    refine ⟨?_, ?_, ?_⟩
    · rw [Started.listening, List.map_append, List.map_map, List.map_map, ← ha4, ← ha6,
        List.map_map, List.map_map]
      rfl
    · intro l hm
      rcases List.mem_append.mp hm with hm | hm
      · obtain ⟨x, hx, rfl⟩ := List.mem_map.mp hm
        exact hs4 x hx
      · obtain ⟨x, hx, rfl⟩ := List.mem_map.mp hm
        exact hs6 x hx
    · have hfds : st.listening.map (fun l => l.2.1) = st.v4.fd.toList ++ st.v6.fd.toList := by
        rw [Started.listening, List.map_append, List.map_map, List.map_map]
        exact congrArg₂ _ hf4 hf6
      rw [setup_slots hs, ← hfds, List.map_map]
      rfl

theorem process_listens_as_asked_busy :
    ∃ st, startUp busyWorld [ascii "sws", ascii "-p", ascii "8081"] = .ok st ∧
      st.listening.map (fun l => (l.1, l.2.2)) =
        [(.v4, ⟨none, 8081⟩), (.v6, ⟨none, 8081⟩)] := by
  obtain ⟨st, hst, hw⟩ := Run.arrives_iff.mp (show Run.arrives (fun _ => decide
      (wantedListeners (options [ascii "sws", ascii "-p", ascii "8081"]) =
        [(.v4, ⟨none, 8081⟩), (.v6, ⟨none, 8081⟩)]))
    (startUp busyWorld [ascii "sws", ascii "-p", ascii "8081"]) = true by decide +kernel)
  exact ⟨st, hst, ((process_listens_as_asked _ _).2 st hst).1.trans (of_decide_eq_true hw)⟩

section Ending

variable {w : World} {argv : List Bytes} {s : Server} {answers : List PollAnswer} {x : Halt}

theorem eventLoop_exit (hs : Entrywise (fun _ => True) s) (h : eventLoop s answers = .error x) :
    ∃ y, x = .exit y := by
  induction answers generalizing s with
  | nil => cases h
  | cons a answers ih =>
    cases h1 : s.step a with
    | ok s₁ =>
      have hs₁ : Entrywise (fun _ => True) s₁ :=
        step_entrywise (C := fun _ _ _ => True) (fun _ _ _ => trivial) (fun _ _ _ => trivial)
          (fun _ _ _ _ _ _ _ _ _ => trivial) hs
          (eachEntry_of_forall (fun _ _ _ => trivial) s a) h1
      refine ih hs₁ ?_
      rw [eventLoop, List.foldlM_cons, h1] at h
      exact h
    | error y =>
      have hxy : y = x := by
        rw [eventLoop, List.foldlM_cons, h1] at h
        cases h
        rfl
      subst hxy
      cases a with
      | eintr => cases h1
      | fatal =>
        cases h1
        exact ⟨_, rfl⟩
      | ready r =>
        obtain ⟨z, hz, -⟩ := pollRound_error hs.pos hs.least h1
        exact ⟨z, hz⟩

theorem made_settles {k : ListenerCalls} {want : Option SockAddr} {held : List ℕ}
    (hf : Fresh held (k.made want).ledger) :
    Settles held (k.made want).ledger (held ++ (k.made want).fd.toList) := by
  cases want with
  | none => exact ⟨held, rfl, by simp [ListenerCalls.made, Listener.unused]⟩
  | some a =>
    cases hk : k.socket with
    | none =>
      simp only [ListenerCalls.made, hk]
      exact ⟨held, rfl, by simp⟩
    | some fd =>
      simp only [ListenerCalls.made, hk] at hf ⊢
      exact ⟨fd :: held, replay_take_fresh hf.1, by
        simpa using (List.perm_append_singleton fd held).symm⟩

theorem logs_settle {cfg : Config} (h : setFlags w.host argv = .ok cfg) :
    replay [.stdout] (cfg.ledger ++ cfg.logPtr.toList.map .give) =
      some (if cfg.appFlags.v then [] else [.stdout]) := by
  have hl := setFlags_logState h
  have hstdout : ∀ f ∈ [LogFile.stdout], .take f ∉ cfg.ledger ∧ .give f ∉ cfg.ledger := by
    intro f hf
    cases List.mem_singleton.mp hf
    constructor
    · intro hm
      obtain ⟨i, file, hc, -⟩ := hl.opened (Or.inl hm)
      cases hc
    · intro hm
      obtain ⟨i, file, hc, -⟩ := hl.opened (Or.inr hm)
      cases hc
  have hbooks := replay_frame hstdout hl.books
  rw [List.nil_append] at hbooks
  rw [replay_append_some hbooks]
  have hv := hl.verbose
  cases hp : cfg.logPtr with
  | none =>
    rw [hp] at hv
    have hfalse : cfg.appFlags.v = false := by simpa using hv
    rw [hfalse]
    rfl
  | some f =>
    rw [hp] at hv
    cases f with
    | stdout =>
      rw [hv.mpr rfl]
      rfl
    | opened i file =>
      have hfalse : cfg.appFlags.v = false := by simpa using hv
      rw [hfalse]
      simp [ownedLog, replay, post]

theorem main_ok {a : Accounts} (h : main w argv = .ok a) : ∃ st s s', startUp w argv = .ok st ∧
    eventLoop st.server (w.answers.map (PollAnswer.under st.cfg.appFlags)) = .ok s ∧
    shutdownLoop (s.table.fdCount - s.numListeners) s s.numListeners = .ok s' ∧
    a.sockets = st.v4.ledger ++ st.v6.ledger ++
      runLedger st.server (w.answers.map (PollAnswer.under st.cfg.appFlags)) ++
      (closed (s'.trace.drop s.trace.length)).map .give ++
      (st.v4.fd.toList ++ st.v6.fd.toList).map .give ∧
    a.logs = st.cfg.ledger ++ st.cfg.logPtr.toList.map .give := by
  simp only [main] at h
  split at h
  · cases h
  rename_i st hst
  split at h
  · cases h
  rename_i s hs
  split at h
  · cases h
  rename_i s' hs'
  cases h
  exact ⟨st, s, s', hst, hs, hs', rfl, rfl⟩

theorem startUp_exit {x : Stop} (h : startUp w argv = .error x) : ∃ y, x.halt = .exit y := by
  simp only [startUp, listenOn, exitFailure] at h
  repeat' split at h
  all_goals cases h
  all_goals exact ⟨_, rfl⟩

theorem main_exit {x : Stop} (h : main w argv = .error x) : ∃ y, x.halt = .exit y := by
  simp only [main] at h
  split at h
  · rename_i hst
    cases h
    exact startUp_exit hst
  rename_i st hst
  obtain ⟨-, -, -, -, -, hcfg, hl⟩ := startUp_iff.mp hst
  obtain ⟨-, -, -, -, h0⟩ := (listenOn_iff hcfg).mp hl
  split at h
  · rename_i hs
    cases h
    exact eventLoop_exit (setup_entrywise h0) hs
  rename_i s hs
  split at h
  · rename_i hs'
    have hpos : 0 < s.numListeners := (eventLoop_entrywise (C := fun _ _ _ => True)
      (fun _ _ _ => trivial) (fun _ _ _ => trivial) (fun _ _ _ _ _ _ _ _ _ => trivial)
      (setup_entrywise h0)
      (Run.along_of_forall (eachEntry_of_forall fun _ _ _ => trivial) _ _) hs).pos
    obtain ⟨s', hok⟩ := shutdownLoop_ok hpos (s := s) le_rfl
    rw [hok] at hs'
    cases hs'
  · cases h

end Ending

/-- Neither the scan of a round nor the shutdown loop runs on without end. A
process that is told to stop and comes to its end has closed every socket it was
given, each exactly once, the listeners among them, and every log file; `stdout`
is closed with them in verbose mode. -/
theorem clean_exit_closes_everything (w : World) (argv : List Bytes) :
    (∀ x, main w argv = .error x → x.halt ≠ .fuel) ∧
    ∀ a, main w argv = .ok a → Fresh [] a.sockets →
      replay [] a.sockets = some [] ∧
      (∀ fd, a.sockets.count (.take fd) = a.sockets.count (.give fd)) ∧
      ∃ cfg, setFlags w.host argv = .ok cfg ∧
        replay [.stdout] a.logs = some (if cfg.appFlags.v then [] else [.stdout]) := by
  refine ⟨fun x hx => ?_, fun a h hk => ?_⟩
  · obtain ⟨y, hy⟩ := main_exit hx
    rw [hy]
    exact nofun
  obtain ⟨st, s, s', hst, hs, hs', hsock, hlogs⟩ := main_ok h
  obtain ⟨-, -, -, -, -, hcfg, hl⟩ := startUp_iff.mp hst
  obtain ⟨-, -, e4, e6, h0⟩ := (listenOn_iff hcfg).mp hl
  have hsettled : replay [] a.sockets = some [] := by
    rw [hsock] at hk ⊢
    -- the listeners are opened, one behind the other
    have hf4 : Fresh [] st.v4.ledger := hk.left.left.left.left
    rw [e4] at hf4
    obtain ⟨held₁, h1, hp1⟩ := made_settles hf4
    rw [← e4] at h1 hp1
    have hf6 := hk.left.left.left.right h1
    rw [e6] at hf6
    obtain ⟨held₂, h2, hp2⟩ := made_settles hf6
    rw [← e6] at h2 hp2
    have hopen := (replay_append_some h1).trans h2
    have hp : held₂.Perm
        (st.v4.fd.toList ++ st.v6.fd.toList ++ st.server.entries.map Entry.fd) := by
      rw [setup_empty h0]
      simpa using hp2.trans (hp1.append_right _)
    obtain ⟨⟨held₃, h3, hp3⟩, hinv⟩ := eventLoop_settles (setup_inv h0) hp
      (replay_nodup hopen List.nodup_nil) (hk.left.left.right hopen) hs
    obtain ⟨held₄, h4, hp4⟩ := shutdown_settles hinv.pos hp3 hs'
    rw [← List.append_nil (_ ++ _)] at hp4
    obtain ⟨held₅, h5, hp5⟩ := replay_gives hp4
    have h123 := (replay_append_some hopen).trans h3
    have h1234 := (replay_append_some h123).trans h4
    rw [replay_append_some h1234, h5, hp5.eq_nil]
  refine ⟨hsettled, fun fd => ?_, st.cfg, hcfg, ?_⟩
  · simpa using replay_count hsettled fd
  · rw [hlogs]
    exact logs_settle hcfg

theorem clean_exit_closes_everything_busy :
    ∃ a, main busyWorld [ascii "sws", ascii "-v"] = .ok a ∧ Fresh [] a.sockets ∧
      a.sockets.length = 10 ∧ replay [] a.sockets = some [] := by
  obtain ⟨a, ha, ht⟩ := Run.arrives_iff.mp (show Run.arrives
    (fun a => decide (Fresh [] a.sockets) && decide (a.sockets.length = 10))
    (main busyWorld [ascii "sws", ascii "-v"]) = true by decide +kernel)
  rw [Bool.and_eq_true, decide_eq_true_eq, decide_eq_true_eq] at ht
  exact ⟨a, ha, ht.1, ht.2, ((clean_exit_closes_everything _ _).2 a ha ht.1).1⟩

end SimpleServer
