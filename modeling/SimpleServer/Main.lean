import SimpleServer.ClientConn.Connections

/-!
# `main`: set-up, event loop and shutdown

A `Round` holds what the kernel answers between two calls of `poll`: the
`revents` of every slot, what each listener accepts, and for every client
descriptor the answers to its `recv` and `send` calls and to the calls made
while its request is served. The `for` loop of the source runs on fuel, and
running out of it is an outcome of its own (`Halt.fuel`), so that termination
is a statement about the loop and not built into it. The index a loop body
returns is the one behind the `i++` of the loop header.

Two things that can end the process are no outcome of their own. The second
`fclose` of a stream, undefined in C and an `abort` with the GNU library, is an
event behind which the model goes on: a run is that of a process as long as its
trace closes no stream twice (`Survives`). The `SIGPIPE` of a `send` to a peer
that has gone is the failure of that `send`, which ends in `exit`.
-/

namespace SimpleServer

open CString FileTree

structure Server where
  table : Table
  numListeners : ℕ
  round : ℕ
  trace : List Event

structure Round where
  revents : ℕ → PollMask
  accepts : ℕ → List AcceptResult
  recvs : ℕ → List RecvResult
  sends : ℕ → List SendResult
  env : ℕ → Env

inductive PollAnswer where
  | eintr
  | fatal
  | ready (r : Round)

inductive Halt where
  | exit (status : ExitStatus)
  | fuel
  deriving DecidableEq, Repr

/-- Table set-up; `none` is a listener that could not be made. The slots hold
what `malloc` left in them. -/
def setup (pfds : ℕ → PollFd) (clients : ℕ → Client) (v4 v6 : Option ℕ) :
    Except ExitStatus Server :=
  let listeners := v4.toList ++ v6.toList
  if listeners.length = 0 then .error .failure
  else .ok
    { table :=
        { pfds := fun i => match listeners[i]? with
            | some fd => ⟨fd, pollIn, 0⟩
            | none => pfds i
          clients := clients
          fdCount := listeners.length
          fdSize := initialSize }
      numListeners := listeners.length
      round := 0
      trace := [] }

def Server.put (s : Server) (i : ℕ) (p : PollFd) (c : Client) (events : List Event) : Server :=
  { s with
    table := { s.table with
      pfds := Function.update s.table.pfds i p
      clients := Function.update s.table.clients i c }
    trace := s.trace ++ events }

def Server.emit (s : Server) (events : List Event) : Server :=
  { s with trace := s.trace ++ events }

def Server.close (s : Server) (i : ℕ) : Server :=
  { s with table := (closeConn i s.table).1, trace := s.trace ++ (closeConn i s.table).2 }

def pollFailed : PollMask := pollErr ||| pollHup ||| pollNval

def readSlot (r : Round) (s : Server) (i : ℕ) : Server :=
  let p := s.table.pfds i
  let c := s.table.clients i
  if p.revents &&& pollIn ≠ 0 ∧ c.state = .reading then
    let o := doRead (r.env c.fd) s.round (r.recvs c.fd) c p
    s.put i o.pollFd o.client o.events
  else s

def writeSlot (r : Round) (revents : PollMask) (s : Server) (i : ℕ) : Except ExitStatus Server :=
  let c := s.table.clients i
  if revents &&& pollOut ≠ 0 ∧ (c.state = .sendingHeader ∨ c.state = .sendingBody) then
    match doWrite (r.sends c.fd) c with
    | .error e => .error e
    | .ok o => .ok (s.put i (s.table.pfds i) o.client o.events)
  else .ok s

/-- The loop body for a client slot. -/
def visitClient (r : Round) (s : Server) (i : ℕ) : Except ExitStatus (Server × ℕ) :=
  let revents := (s.table.pfds i).revents
  if revents = 0 then .ok (s, i + 1)
  else
    let s := s.emit [.visit (s.table.pfds i) (s.table.clients i)]
    if revents &&& pollFailed ≠ 0 then .ok (s.close i, i)
    else match writeSlot r revents (readSlot r s i) i with
      | .error e => .error e
      | .ok s => if (s.table.clients i).state = .closing then .ok (s.close i, i) else .ok (s, i + 1)

def visitListener (r : Round) (s : Server) (i : ℕ) : Except ExitStatus Server :=
  if (s.table.pfds i).revents &&& pollIn ≠ 0 then
    match acceptNewConn s.table (r.accepts i) with
    | .error e => .error e
    | .ok t => .ok { s with table := t }
  else .ok s

def visitSlot (r : Round) (s : Server) (i : ℕ) : Except ExitStatus (Server × ℕ) :=
  if i < s.numListeners then
    match visitListener r s i with
    | .error e => .error e
    | .ok s => .ok (s, i + 1)
  else visitClient r s i

def forLoop (r : Round) : ℕ → Server → ℕ → Except Halt Server
  | 0, s, i => if i < s.table.fdCount then .error .fuel else .ok s
  | fuel + 1, s, i =>
    if i < s.table.fdCount then
      match visitSlot r s i with
      | .error e => .error (.exit e)
      | .ok (s, i) => forLoop r fuel s i
    else .ok s

/-- The table as `poll` returns it. -/
def Server.polled (s : Server) (r : Round) : Server :=
  { s with table := { s.table with
      pfds := fun i => if i < s.table.fdCount then
        { s.table.pfds i with revents := r.revents i } else s.table.pfds i } }

/-- Every iteration uses up a listener, or a slot of the table or of the
connections accepted in this round. -/
def loopFuel (s : Server) (r : Round) : ℕ :=
  s.table.fdCount + ((List.range s.numListeners).map fun i => (r.accepts i).length).sum

def pollRound (s : Server) (r : Round) : Except Halt Server :=
  match forLoop r (loopFuel s r) (s.polled r) 0 with
  | .error e => .error e
  | .ok s => .ok { s with round := s.round + 1 }

def Server.step (s : Server) : PollAnswer → Except Halt Server
  | .eintr => .ok s
  | .fatal => .error (.exit .failure)
  | .ready r => pollRound s r

/-- The `while (running)` loop over the answers of `poll` until a signal ends it. -/
def eventLoop (s : Server) (answers : List PollAnswer) : Except Halt Server :=
  answers.foldlM Server.step s

/-- The loop of `close_conn` calls behind the event loop. -/
def shutdownLoop : ℕ → Server → ℕ → Except Halt Server
  | 0, s, i => if i < s.table.fdCount then .error .fuel else .ok s
  | fuel + 1, s, i => if i < s.table.fdCount then shutdownLoop fuel (s.close i) i else .ok s

end SimpleServer
