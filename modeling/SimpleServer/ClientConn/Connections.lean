import SimpleServer.ClientConn.DoWrite

/-!
# The connection table: `add_to_lists`, `close_conn`, `accept_new_conn`

The two parallel arrays are the contents of their slots, `fd_size` of which
are allocated and `fd_count` in use. A slot that is not in use keeps whatever
it held: `close_conn` does not clear it, and `add_to_lists` overwrites it
field by field, leaving `timestamp` and `client_addr` as they were.
-/

namespace SimpleServer

open CString FileTree

structure Table where
  pfds : ℕ → PollFd
  clients : ℕ → Client
  fdCount : ℕ
  fdSize : ℕ

def initialSize : ℕ := 32

/-- The trace of the release of one client: its socket is closed, and its
`file_ptr` if it is not NULL. A stream that `do_read` has closed is closed again
here, which is undefined in C and an `abort` with the GNU library; in the trace it
is an event like any other. -/
def closeEvents (c : Client) : List Event :=
  .close c :: (match c.filePtr with
    | some h => [.release (.file h)]
    | none => [])

def closeConn (i : ℕ) (t : Table) : Table × List Event :=
  if i = 0 then (t, [])
  else
    let events := closeEvents (t.clients i)
    if i ≠ t.fdCount - 1 then
      ({ t with
        pfds := Function.update t.pfds i (t.pfds (t.fdCount - 1))
        clients := Function.update t.clients i (t.clients (t.fdCount - 1))
        fdCount := t.fdCount - 1 }, events)
    else ({ t with fdCount := t.fdCount - 1 }, events)

theorem closeConn_events {i : ℕ} (hi : 0 < i) (t : Table) :
    (closeConn i t).2 = closeEvents (t.clients i) := by
  rw [closeConn, if_neg (Nat.ne_of_gt hi)]
  split_ifs <;> rfl

def initClient (old : Client) (newfd : ℕ) : Client :=
  { old with
    fd := newfd
    state := .reading
    inBuf := none
    inputCapacity := 0
    inputLength := 0
    outBuf := none
    outputCapacity := 0
    outputLength := 0
    outputSent := 0
    headerLen := 0
    bodyLen := 0
    bodySent := 0
    fileSize := 0
    filePtr := none
    respVal := .numClientResp }

/-- The outcomes of the two calls of `realloc` that a full table needs. -/
structure Growth where
  pfds : Bool
  clients : Bool

def addToLists (newfd : ℕ) (g : Growth) (t : Table) : Except ExitStatus (ℕ × Table) :=
  if t.fdCount = t.fdSize ∧ (g.pfds = false ∨ g.clients = false) then .error .failure
  else
    let index := t.fdCount
    .ok (index,
      { pfds := Function.update t.pfds index ⟨newfd, pollIn, 0⟩
        clients := Function.update t.clients index (initClient (t.clients index) newfd)
        fdCount := t.fdCount + 1
        fdSize := if t.fdCount = t.fdSize then t.fdSize * 2 else t.fdSize })

/-- A connection that `accept` hands out: whether both `fcntl` calls succeed,
and what `inet_ntop` makes of the peer's address. -/
structure Accepted where
  fd : ℕ
  nonblock : Bool
  growth : Growth
  addr : Option AddrText

inductive AcceptResult where
  | conn (a : Accepted)
  | fail (e : Errno)

def addrText (addr : Option AddrText) : Bytes :=
  match addr with
  | some a => a.text
  | none => ascii "Unknown IP"

def setAddr (i : ℕ) (addr : Option AddrText) (t : Table) : Table :=
  { t with
    clients := Function.update t.clients i { t.clients i with clientAddr := addrText addr } }

def acceptNewConn (t : Table) : List AcceptResult → Except ExitStatus Table
  | [] => .ok t
  | .fail e :: rest => if e = .EINTR then acceptNewConn t rest else .ok t
  | .conn a :: rest =>
    if a.nonblock = false then acceptNewConn t rest
    else match addToLists a.fd a.growth t with
      | .error e => .error e
      | .ok (idx, t) => acceptNewConn (setAddr idx a.addr t) rest

end SimpleServer
