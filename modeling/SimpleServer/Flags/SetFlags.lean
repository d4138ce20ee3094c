import SimpleServer.Logging
import SimpleServer.Lib.Ledger
import SimpleServer.Lib.Run

/-!
# `setFlags` and the addresses of the two listeners

The globals of `setFlags.c` are a `Config`. Every exit of the process is an
error that carries the text printed before it. A log file is identified by the
position of the `-l` that opened it, and the ledger holds every `fopen` and
`fclose` of a log file; `stdout` is never an entry of it unless the code puts
it there. `Host` is what the C library and the kernel answer: `stat` and
`fopen` are asked at the position of the option, so that their answers may
change from one option to the next.

`readOptions` reads the argument vector as a list of options with their
arguments, as the index arithmetic of the loop does, and `setFlags` is a run of
`applyOption` over that list.
-/

namespace SimpleServer

open CString FileTree Ledger

inductive LogFile where
  | stdout
  | opened (i : ℕ) (path : Bytes)
  deriving DecidableEq, Repr

structure Config where
  appFlags : Flags
  portAddr : BitVec 32
  bindAddr4 : Option Bytes
  bindAddr6 : Option Bytes
  cgiAddr : Option Bytes
  logAddr : Option Bytes
  logPtr : Option LogFile
  ledger : List (Entry LogFile)
  deriving DecidableEq, Repr

/-- The globals before `setFlags` runs. -/
def Config.init : Config where
  appFlags := ⟨false, false, false, false, false⟩
  portAddr := 8080
  bindAddr4 := none
  bindAddr6 := none
  cgiAddr := none
  logAddr := none
  logPtr := none
  ledger := []

structure Host where
  stat : ℕ → Bytes → Option Stat
  inetPton4 : Bytes → Bool
  inetPton6 : Bytes → Bool
  fopen : ℕ → Bytes → Bool
  geteuid : ℕ

def invalidCgiDir : Bytes := ascii "Invalid CGI dir\nProvide the cgi-bin " ++
  ascii "address after -c flag. Eg: ./simple_server -c ./cgi-bin\n"

def notValidDirectory (dir : Bytes) : Bytes := dir ++ ascii " is not a valid directory\n"

def invalidBind4 : Bytes := ascii "Invalid bind address \nProvide the a valid " ++
  ascii "IPv4 address for bind flag. Eg: -bind4 192.168.1.1\n"

def invalidBind6 : Bytes := ascii "Invalid bind address \nProvide the a valid " ++
  ascii "IPv6 address for bind flag. Eg: -bind6 2001:db8::20\n"

def invalidLogFile : Bytes := ascii "Invalid log file \nProvide the a valid address for log " ++
  ascii "file -l flag. Eg: -l ./simple-server.log\n"

def invalidPort : Bytes :=
  ascii "Invalid port number\nProvide port number after -p flag. Eg: -p 8080\n"

def privilegedPort : Bytes := ascii "Invalid port number\nOnly root can set port below 1024\n"

def printFlagError (badFlag : Bytes) : Bytes :=
  ascii "\n[ERROR] Unknown flag: '" ++ badFlag ++ ascii "'\n\n" ++
  ascii "Valid flags are:\n" ++
  ascii "  -c <dir>        Enable CGI execution from directory\n" ++
  ascii "  -v              Verbose mode (single connection, debug output)\n" ++
  ascii "  -p <port>       Set listen port (default: 8080)\n" ++
  ascii "  -l <file>       Log requests to file\n" ++
  ascii "  -bind4 <addr>   Bind IPv4 to specific address\n" ++
  ascii "  -bind6 <addr>   Bind IPv6 to specific address\n\n" ++
  ascii "Rules:\n" ++
  ascii "  - IPv4 and IPv6 are independent\n" ++
  ascii "  - If neither -bind4 nor -bind6 is used, both are enabled\n" ++
  ascii "  - Addresses must belong to a local interface or use wildcard\n" ++
  ascii "  - Example IPv4: 192.168.1.10 or 0.0.0.0\n" ++
  ascii "  - Example IPv6: ::1 or ::\n\n" ++
  ascii "Example usage:\n" ++
  ascii "  ./simple_server -v -bind4 0.0.0.0 -bind6 :: -p 8080\n\n"

def isDigit (b : Byte) : Bool := 48 ≤ b && b ≤ 57

def checkPortNumber (port : Bytes) : Bool := port.all isDigit

/-- The number that a string of digits stands for; the empty string is zero. -/
def decimalValue (digits : Bytes) : ℕ := digits.foldl (fun n b => 10 * n + (b.toNat - 48)) 0

/-- `atoi` of a string without blanks and signs, which is what
`checkPortNumber` lets through; it wraps modulo `2^32`. -/
def atoi (s : Bytes) : BitVec 32 := BitVec.ofNat 32 (decimalValue (s.takeWhile isDigit))

/-- `if (log_ptr != NULL && log_ptr != stdout) fclose(log_ptr)`. -/
def closeLog : Option LogFile → List (Entry LogFile)
  | none => []
  | some .stdout => []
  | some f => [.give f]

def setCgi (host : Host) (i : ℕ) (cfg : Config) (dir : Bytes) : Except Bytes Config :=
  if (host.stat i dir).any Stat.isDir = false then .error (notValidDirectory dir)
  else .ok { cfg with
    cgiAddr := some dir
    appFlags := { cfg.appFlags with c := true } }

def setVerbose (cfg : Config) : Config :=
  { cfg with
    ledger := cfg.ledger ++ closeLog cfg.logPtr
    logPtr := some .stdout
    appFlags := { cfg.appFlags with l := false, v := true } }

def setBind4 (host : Host) (cfg : Config) (addr : Bytes) : Except Bytes Config :=
  if addr.head? = some 45 then .error invalidBind4
  else if host.inetPton4 addr = false then .error (ascii "Invalid IPv4 address\n")
  else .ok { cfg with
    bindAddr4 := some addr
    appFlags := { cfg.appFlags with b4 := true } }

def setBind6 (host : Host) (cfg : Config) (addr : Bytes) : Except Bytes Config :=
  if addr.head? = some 45 then .error invalidBind6
  else if host.inetPton6 addr = false then .error (ascii "Invalid IPv6 address\n")
  else .ok { cfg with
    bindAddr6 := some addr
    appFlags := { cfg.appFlags with b6 := true } }

def setLog (host : Host) (i : ℕ) (cfg : Config) (file : Bytes) : Except Bytes Config :=
  if file.head? = some 45 then .error invalidLogFile
  else if host.fopen i file = false then .error (ascii "Unable to create logfile: ")
  else .ok { cfg with
    logAddr := some file
    ledger := cfg.ledger ++ closeLog cfg.logPtr ++ [.take (.opened i file)]
    logPtr := some (.opened i file)
    appFlags := { cfg.appFlags with l := true, v := false } }

def setPort (host : Host) (cfg : Config) (w : Bytes) : Except Bytes Config :=
  if checkPortNumber w = false then .error invalidPort
  else if (atoi w).toInt ≤ 1024 ∧ host.geteuid ≠ 0 then .error privilegedPort
  else .ok { cfg with portAddr := atoi w }

def setFlagsFrom (host : Host) : ℕ → Config → List Bytes → Except Bytes Config
  | _, cfg, [] => .ok cfg
  | i, cfg, arg :: rest =>
    if arg.head? ≠ some 45 then setFlagsFrom host (i + 1) cfg rest
    else if arg = ascii "-c" then
      match rest with
      | [] => .error invalidCgiDir
      | dir :: rest => (setCgi host i cfg dir).bind (setFlagsFrom host (i + 2) · rest)
    else if arg = ascii "-v" then setFlagsFrom host (i + 1) (setVerbose cfg) rest
    else if arg = ascii "-bind4" then
      match rest with
      | [] => .error invalidBind4
      | addr :: rest => (setBind4 host cfg addr).bind (setFlagsFrom host (i + 2) · rest)
    else if arg = ascii "-bind6" then
      match rest with
      | [] => .error invalidBind6
      | addr :: rest => (setBind6 host cfg addr).bind (setFlagsFrom host (i + 2) · rest)
    else if arg = ascii "-l" then
      match rest with
      | [] => .error invalidLogFile
      | file :: rest => (setLog host i cfg file).bind (setFlagsFrom host (i + 2) · rest)
    else if arg = ascii "-p" then
      match rest with
      | [] => .error invalidPort
      | w :: rest => (setPort host cfg w).bind (setFlagsFrom host (i + 2) · rest)
    else .error (printFlagError arg)

def setFlags (host : Host) (argv : List Bytes) : Except Bytes Config :=
  setFlagsFrom host 1 .init (argv.drop 1)

/-- `sin_port` and `sin6_port` take 16 of the 32 bits of `port_addr`; the
order of their two bytes is left to `htons`. -/
def htons (port : BitVec 32) : BitVec 16 := port.setWidth 16

/-- What the listener is bound to; without an address, to every interface. -/
structure SockAddr where
  addr : Option Bytes
  port : BitVec 16
  deriving DecidableEq, Repr

/-- The address of either listener; `none` when `inet_pton` refuses it. -/
def getListener (bound : Bool) (inetPton : Bytes → Bool) (bindAddr : Option Bytes)
    (port : BitVec 32) : Option SockAddr :=
  if bound then
    if bindAddr.any inetPton = false then none else some ⟨bindAddr, htons port⟩
  else some ⟨none, htons port⟩

def getListenerV4 (host : Host) (cfg : Config) : Option SockAddr :=
  getListener cfg.appFlags.b4 host.inetPton4 cfg.bindAddr4 cfg.portAddr

def getListenerV6 (host : Host) (cfg : Config) : Option SockAddr :=
  getListener cfg.appFlags.b6 host.inetPton6 cfg.bindAddr6 cfg.portAddr

/-- An option with its argument; `none` where the vector ends behind it. -/
inductive Opt where
  | c (i : ℕ) (dir : Option Bytes)
  | v
  | bind4 (addr : Option Bytes)
  | bind6 (addr : Option Bytes)
  | l (i : ℕ) (file : Option Bytes)
  | p (port : Option Bytes)
  | unknown (arg : Bytes)
  deriving DecidableEq, Repr

def readOptions : ℕ → List Bytes → List Opt
  | _, [] => []
  | i, arg :: rest =>
    if arg.head? ≠ some 45 then readOptions (i + 1) rest
    else if arg = ascii "-c" then
      match rest with
      | [] => [.c i none]
      | dir :: rest => .c i (some dir) :: readOptions (i + 2) rest
    else if arg = ascii "-v" then .v :: readOptions (i + 1) rest
    else if arg = ascii "-bind4" then
      match rest with
      | [] => [.bind4 none]
      | addr :: rest => .bind4 (some addr) :: readOptions (i + 2) rest
    else if arg = ascii "-bind6" then
      match rest with
      | [] => [.bind6 none]
      | addr :: rest => .bind6 (some addr) :: readOptions (i + 2) rest
    else if arg = ascii "-l" then
      match rest with
      | [] => [.l i none]
      | file :: rest => .l i (some file) :: readOptions (i + 2) rest
    else if arg = ascii "-p" then
      match rest with
      | [] => [.p none]
      | w :: rest => .p (some w) :: readOptions (i + 2) rest
    else .unknown arg :: readOptions (i + 1) rest

def options (argv : List Bytes) : List Opt := readOptions 1 (argv.drop 1)

def applyOption (host : Host) (cfg : Config) : Opt → Except Bytes Config
  | .c i (some dir) => setCgi host i cfg dir
  | .c _ none => .error invalidCgiDir
  | .v => .ok (setVerbose cfg)
  | .bind4 (some addr) => setBind4 host cfg addr
  | .bind4 none => .error invalidBind4
  | .bind6 (some addr) => setBind6 host cfg addr
  | .bind6 none => .error invalidBind6
  | .l i (some file) => setLog host i cfg file
  | .l _ none => .error invalidLogFile
  | .p (some w) => setPort host cfg w
  | .p none => .error invalidPort
  | .unknown arg => .error (printFlagError arg)

theorem setFlagsFrom_eq_run (host : Host) (i : ℕ) (cfg : Config) (args : List Bytes) :
    setFlagsFrom host i cfg args = Run.run (applyOption host) cfg (readOptions i args) := by
  have hnext : ∀ (r : Except Bytes Config) {f g : Config → Except Bytes Config},
      (∀ cfg, f cfg = g cfg) → r.bind f = r.bind g := by
    intro r f g h
    rw [funext h]
  fun_induction readOptions i args generalizing cfg with
  | case1 i => rfl
  | case2 i arg rest h ih =>
    rw [setFlagsFrom.eq_def]
    exact (if_pos h).trans (ih cfg)
  -- where the vector ends behind an option, both sides are its message
  | case3 | case6 | case8 | case10 | case12 => rfl
  | case4 i dir rest h ih => exact hnext (setCgi host i cfg dir) ih
  | case5 i rest h hc ih =>
    rw [setFlagsFrom.eq_def]
    exact ih (setVerbose cfg)
  | case7 i addr rest h hc hv ih => exact hnext (setBind4 host cfg addr) ih
  | case9 i addr rest h hc hv h4 ih => exact hnext (setBind6 host cfg addr) ih
  | case11 i file rest h hc hv h4 h6 ih => exact hnext (setLog host i cfg file) ih
  | case13 i w rest h hc hv h4 h6 hl ih => exact hnext (setPort host cfg w) ih
  | case14 i arg rest h hc hv h4 h6 hl hp ih =>
    rw [setFlagsFrom.eq_def]
    simp only [h, hc, hv, h4, h6, hl, hp, if_false]
    rfl

theorem setFlags_eq_run (host : Host) (argv : List Bytes) :
    setFlags host argv = Run.run (applyOption host) .init (options argv) :=
  setFlagsFrom_eq_run host 1 .init _

end SimpleServer
