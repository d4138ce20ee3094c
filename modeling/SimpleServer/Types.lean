import Mathlib.Algebra.Order.BigOperators.Group.List
import Mathlib.Algebra.Order.Ring.Nat
import SimpleServer.Lib.FileTree

/-!
# The server's records and what it asks of the outside

The enumerations and records are those of `connections.h`, `parse_request.h`
and `resolve_path.h`. A `char *` that may be NULL is an `Option`; a buffer is
the bytes written into it, its length and capacity fields staying separate as
in the source. `NUM_CLIENT_RESP` is a value of `resp_val` and is kept;
enumerators that no function tests or produces are not.

`Env` holds the answers of the C library and the kernel while one request is
served, each a free choice: nothing here makes `fopen` agree with `opendir`.
`Event` is what an execution leaves behind it: every handle it takes and gives
back, every pathname it hands out, every byte a socket accepts and every line
it logs. A `FILE` handle is identified by the poll round, the client and the
call that opened it.
-/

namespace SimpleServer

open CString FileTree

inductive ClientState where
  | reading
  | processing
  | sendingHeader
  | sendingBody
  | closing
  deriving DecidableEq, Repr

inductive ClientResponse where
  | resp200
  | resp400
  | resp403
  | resp404
  | resp414
  | resp500
  | resp501
  | resp505
  | numClientResp
  deriving DecidableEq, Repr

/-- The C value of the enumerator, for the range test of `build_error_response`. -/
def ClientResponse.toNat : ClientResponse → ℕ
  | .resp200 => 0
  | .resp400 => 1
  | .resp403 => 2
  | .resp404 => 3
  | .resp414 => 4
  | .resp500 => 5
  | .resp501 => 6
  | .resp505 => 7
  | .numClientResp => 8

inductive HttpMethod where
  | get
  | post
  | head
  | unknown
  deriving DecidableEq, Repr

inductive HttpVersion where
  | http09
  | http10
  | http11
  | unsupported
  | unknown
  deriving DecidableEq, Repr

inductive PathType where
  | unknown
  | isFile
  | isDir
  | isCgi
  deriving DecidableEq, Repr

def pathMax : ℕ := 4096
def maxRequestSize : ℕ := 8192
def tempBuffer : ℕ := 2048
def timeReceivedLength : ℕ := 32
def inet6AddrStrLen : ℕ := 46
def serverVersion : Bytes := ascii "Simple_Server V2"
def crlf : Bytes := [13, 10]
def headerEnd : Bytes := [13, 10, 13, 10]

abbrev PollMask := BitVec 16

def pollIn : PollMask := 0x001
def pollOut : PollMask := 0x004
def pollErr : PollMask := 0x008
def pollHup : PollMask := 0x010
def pollNval : PollMask := 0x020

structure PollFd where
  fd : ℕ
  events : PollMask
  revents : PollMask
  deriving DecidableEq, Repr

/-- The three calls of `fopen` in `resolve_path`. -/
inductive Site where
  | target
  | index
  | index2
  deriving DecidableEq, Repr

structure Handle where
  round : ℕ
  fd : ℕ
  site : Site
  node : Node
  deriving DecidableEq, Repr

structure Client where
  inBuf : Option Bytes
  outBuf : Option Bytes
  filePtr : Option Handle
  fileSize : ℕ
  bodySent : ℕ
  inputLength : ℕ
  inputCapacity : ℕ
  outputLength : ℕ
  outputCapacity : ℕ
  outputSent : ℕ
  headerLen : ℕ
  bodyLen : ℕ
  fd : ℕ
  state : ClientState
  respVal : ClientResponse
  timestamp : Bytes
  clientAddr : Bytes
  deriving DecidableEq, Repr

structure Request where
  method : HttpMethod
  version : HttpVersion
  timeReceived : Bytes
  path : Bytes
  deriving DecidableEq, Repr

/-- `Request req = {0}`. -/
def Request.zero : Request := ⟨.get, .http09, [], []⟩

structure ResolvedPath where
  queryString : Bytes
  filePtr : Option Handle
  fileSize : ℕ
  mimeType : Option Bytes
  lastMod : ℤ
  pathType : PathType
  deriving DecidableEq, Repr

/-- `ResolvedPath rp = {0}`. -/
def ResolvedPath.zero : ResolvedPath := ⟨[], none, 0, none, 0, .unknown⟩

structure Flags where
  c : Bool
  v : Bool
  b4 : Bool
  b6 : Bool
  l : Bool
  deriving DecidableEq, Repr

structure Stat where
  isDir : Bool
  size : ℕ
  mtime : ℤ
  deriving DecidableEq, Repr

structure Dirent where
  name : Bytes
  isDir : Bool
  deriving DecidableEq, Repr

/-- A time as `strftime` writes it into a buffer of 32 bytes. -/
structure TimeStamp where
  text : Bytes
  short : text.length < timeReceivedLength
  noNul : 0 ∉ text

/-- A peer address as `inet_ntop` writes it. -/
structure AddrText where
  text : Bytes
  short : text.length < inet6AddrStrLen
  noNul : 0 ∉ text

inductive ReadResult where
  | data (b : Byte) (bs : Bytes)
  | eof
  | fail (e : Errno)
  deriving DecidableEq, Repr

inductive WaitStatus where
  | exited (code : ℕ)
  | signaled (sig : ℕ)
  deriving DecidableEq, Repr

/-- The answers given to `build_response_cgi`. Each `read` comes with the
outcome of the `realloc` that may precede it; a script that has written
everything is at end of file. -/
structure CgiRun where
  pipe : Bool
  fork : Bool
  malloc : Bool
  reads : List (Bool × ReadResult)
  waitpid : Bool
  status : WaitStatus
  outMalloc : Bool
  deriving DecidableEq, Repr

structure Env where
  flags : Flags
  timeReceived : TimeStamp
  fopen : Site → Bytes → Except Errno Node
  fstat : Site → Node → Option Stat
  fread : Node → Bytes
  magicDescriptor : Node → Option Bytes
  gmtime : ℤ → Option TimeStamp
  opendir : Bytes → Except Errno Node
  readdir : Node → List Dirent
  bodyStream : Bool
  outStream : Bool
  errorStream : Bool
  cgi : CgiRun

inductive Scratch where
  | pipeRead
  | pipeWrite
  | child
  | cgiResponse
  | dir
  | bodyBuffer
  | dirList
  | outStream
  | outBuf
  | errorStream
  | errorBuf
  deriving DecidableEq, Repr

inductive Resource where
  | file (h : Handle)
  | scratch (round fd : ℕ) (s : Scratch)
  deriving DecidableEq, Repr

/-- What the child of `build_response_cgi` hands to `execvp`, with its environment. -/
structure ExecCall where
  path : Bytes
  queryString : Bytes
  requestMethod : Bytes
  scriptName : Bytes
  serverProtocol : Bytes
  gatewayInterface : Bytes
  remoteAddr : Bytes
  serverSoftware : Bytes
  deriving DecidableEq, Repr

inductive Event where
  | acquire (r : Resource)
  | release (r : Resource)
  | fopen (path : Bytes)
  | opendir (path : Bytes)
  | execvp (call : ExecCall)
  | logLine (line : Bytes)
  | visit (p : PollFd) (c : Client)
  | sent (fd : ℕ) (bytes : Bytes)
  | shutdown (fd : ℕ)
  | close (c : Client)
  deriving DecidableEq, Repr

end SimpleServer
