import SocksProxy.Hello
import SocksProxy.Connecting
import SocksProxy.Copy
import SocksProxy.MngRequest

/-!
# socks5nio.c and mng_nio.c: the two state tables and their events

A session is a record with its state machine. `fire` is one event of the
selector on it, an answer of its resolver thread, or anything that the rest of
the process does to the world in between.
-/

namespace SocksProxy

open Lib

section
variable (o : Outcome) (fd : Int)

/-- The handlers of an entry of a table, all absent. -/
def entry (state : Nat) : StateDefinition Conn := ⟨state, none, none, none, none, none⟩

def clientStatbl : List (StateDefinition Conn) := [
  { entry SocksV5State.helloRead.num with
    onArrival := some (helloReadInit o fd)
    onDeparture := some (helloReadClose fd)
    onReadReady := some (helloRead o fd) },
  { entry SocksV5State.helloWrite.num with
    onArrival := some (helloWriteInit fd)
    onDeparture := some (helloWriteClose fd)
    onWriteReady := some (helloWrite o fd) },
  { entry SocksV5State.userpassRead.num with
    onArrival := some (authReadInit o fd)
    onDeparture := some (authReadClose fd)
    onReadReady := some (authRead o fd) },
  { entry SocksV5State.userpassWrite.num with
    onArrival := some (authWriteInit fd)
    onDeparture := some (authWriteClose fd)
    onWriteReady := some (authWrite o fd) },
  { entry SocksV5State.requestRead.num with
    onArrival := some (requestInit o fd)
    onDeparture := some (requestClose fd)
    onReadReady := some (requestRead o fd) },
  { entry SocksV5State.requestResolv.num with
    onBlockReady := some (requestResolvDone fd) },
  { entry SocksV5State.requestConnecting.num with
    onArrival := some (connectingInit o fd)
    onDeparture := some (connectingClose fd)
    onWriteReady := some (connectingWrite o fd) },
  { entry SocksV5State.requestWrite.num with
    onWriteReady := some (requestWrite o fd) },
  { entry SocksV5State.copy.num with
    onArrival := some (copyInit fd)
    onReadReady := some (copyRead o fd)
    onWriteReady := some (copyWrite o fd) },
  entry SocksV5State.done.num,
  entry SocksV5State.error.num]

def clientMng : List (StateDefinition Conn) := [
  { entry MngState.helloRead.num with
    onArrival := some (helloReadInit o fd)
    onDeparture := some (helloReadClose fd)
    onReadReady := some (helloRead o fd) },
  { entry MngState.helloWrite.num with
    onArrival := some (helloWriteInit fd)
    onDeparture := some (helloWriteClose fd)
    onWriteReady := some (helloWrite o fd) },
  { entry MngState.userpassRead.num with
    onArrival := some (authReadInit o fd)
    onDeparture := some (authReadClose fd)
    onReadReady := some (authRead o fd) },
  { entry MngState.userpassWrite.num with
    onArrival := some (authWriteInit fd)
    onDeparture := some (authWriteClose fd)
    onWriteReady := some (authWrite o fd) },
  { entry MngState.requestReadIndex.num with
    onArrival := some (mngRequestIndexInit o fd)
    onDeparture := some (mngRequestIndexClose fd)
    onReadReady := some (mngRequestIndexRead o fd) },
  { entry MngState.requestRead.num with
    onArrival := some (mngRequestInit o fd)
    onDeparture := some (mngRequestClose fd)
    onReadReady := some (mngRequestRead o fd) },
  { entry MngState.requestWrite.num with
    onArrival := some (mngRequestWriteInit fd)
    onDeparture := some (mngRequestWriteClose fd)
    onWriteReady := some (mngRequestWrite o fd) },
  entry MngState.done.num,
  entry MngState.error.num]

end

/-! ## Ending a connection -/

/-- One descriptor of `socksv5_done` or `mng_done`. -/
def doneFd (fd : Int) (c : Conn) : Result Conn :=
  if fd ≠ -1 then
    let r := c.unregister fd
    if r.1 = .success then .ok (r.2.closeFd fd) else .error .abort
  else .ok c

def socksv5Done (c : Conn) : Result Conn := doneFd c.clientFd c >>= doneFd c.originFd

def mngDone (c : Conn) : Result Conn := doneFd c.clientFd c

/-! ## Events -/

inductive Event
  | read
  | write
  | block
  deriving DecidableEq, Repr

def Event.handler (e : Event) (d : StateDefinition Conn) : Option (Conn → Result (Nat × Conn)) :=
  match e with
  | .read => d.onReadReady
  | .write => d.onWriteReady
  | .block => d.onBlockReady

structure Session where
  stm : StateMachine
  conn : Conn

def statesOf (isSocks : Bool) (o : Outcome) (fd : Int) : List (StateDefinition Conn) :=
  if isSocks then clientStatbl o fd else clientMng o fd

/-- `socksv5_read`, `socksv5_write`, `socksv5_block` and their management twins. -/
def handleEvent (e : Event) (o : Outcome) (fd : Int) (s : Session) : Result Session := do
  let r ← stmHandler e.handler (statesOf s.conn.isSocks o fd) s.stm s.conn
  if s.conn.isSocks then
    if r.1 = SocksV5State.error.num ∨ r.1 = SocksV5State.done.num then
      let c ← socksv5Done r.2.2
      .ok ⟨r.2.1, c⟩
    else .ok ⟨r.2.1, r.2.2⟩
  else
    if r.1 = MngState.error.num ∨ r.1 = MngState.done.num then
      let c ← mngDone r.2.2
      .ok ⟨r.2.1, c⟩
    else .ok ⟨r.2.1, r.2.2⟩

/-- The end of `request_resolv_blocking`: the answer is in the record and a job
is queued for the descriptor of the key. -/
def resolverEnds (answer : List AddrInfo) (key : Int × Nat) (s : Session) : Session :=
  ⟨s.stm, { s.conn with
    originResolution := answer
    resolvers := s.conn.resolvers.erase key
    sel := { s.conn.sel with resolutionJobs := key.1 :: s.conn.sel.resolutionJobs } }⟩

/-- `handle_block_notifications` takes the job off the list. -/
def takeJob (fd : Int) (s : Session) : Session :=
  ⟨s.stm, { s.conn with
    sel := { s.conn.sel with resolutionJobs := s.conn.sel.resolutionJobs.erase fd } }⟩

inductive Label
  | event (e : Event) (fd : Int) (o : Outcome)
  | resolved (answer : List AddrInfo) (fd : Int)
  | env (w : World)

def fire (l : Label) (s : Session) : Result Session :=
  match l with
  | .event .block fd o => handleEvent .block o fd (takeJob fd s)
  | .event e fd o => handleEvent e o fd s
  | .resolved answer fd => .ok (resolverEnds answer (fd, s.conn.self) s)
  | .env w => .ok ⟨s.stm, { s.conn with toWorld := w }⟩

/-! ## Accepting a connection -/

def rawBuffSize : Nat := 2048

def freshBuffer : Buffer := bufferInit rawBuffSize (List.replicate rawBuffSize 0) (by simp)

/-- What `accept` and the allocations of a passive socket's event return.
`record` is the address `malloc` gives. -/
structure Accepted where
  client : Option (Nat × List UInt8)
  setNio : Bool
  record : Option Nat
  realloc : Bool

/-- The record a pool or `malloc` gives. `pool_size` is not touched. -/
def Pool.take (p : Pool) (record : Option Nat) : Option (Nat × Pool) :=
  match p.list with
  | s :: rest => some (s, { p with list := rest })
  | [] => record.map fun s => (s, p)

/-- Every call fails; no call is made while a record is set up. -/
def Outcome.none : Outcome where
  recv := .none
  send := .none
  malloc := fun _ => false
  mallocKey := false
  pthreadCreate := -1
  socket := .none
  setNio := false
  connect := some .ebadf
  realloc := false
  getsockopt := .none

/-- A record wiped by `memset` and set up by `socks5_new` or `mng_new`. -/
def newRecord (isSocks : Bool) (self : Nat) (clientFd : Int) (clientAddr : List UInt8) : Socks5 where
  self := self
  clientAddr := clientAddr
  clientFd := clientFd
  originResolution := []
  originResolutionCurrent := []
  originAddr := []
  originAddrLen := 0
  originDomain := 0
  originFd := -1
  errorState := if isSocks then SocksV5State.error.num else MngState.error.num
  doneState := if isSocks then SocksV5State.done.num else MngState.done.num
  isSocks := isSocks
  client := .zeroed
  orig := .conn ⟨0, 0, .succeeded⟩
  readBuffer := freshBuffer
  writeBuffer := freshBuffer
  references := 1
  authentication := 0
  userIndex := 0
  dissecParser := dissecParserInit ⟨.userWordSearch, 0, false, none, none, []⟩
  calls := []

def newStm (isSocks : Bool) : StateMachine where
  initial := if isSocks then SocksV5State.helloRead.num else MngState.helloRead.num
  maxState := if isSocks then SocksV5State.error.num else MngState.error.num
  current := some 0

/-- `socksv5_passive_accept` and `mng_passive_accept`. -/
def passiveAccept (isSocks : Bool) (a : Accepted) (w : World) : Result (World × Option Session) :=
  match a.client with
  | none => .ok (w, none)
  | some (fd, addr) =>
    let w := { w with isOpen := Function.update w.isOpen fd true }
    let closed (w : World) : World := { w with isOpen := Function.update w.isOpen fd false }
    if a.setNio then
      match (if isSocks then w.socksPool else w.mngPool).take a.record with
      | none => .ok (closed w, none)
      | some (self, pool) => do
        let w := if isSocks then { w with socksPool := pool } else { w with mngPool := pool }
        let stm ← stmInit (statesOf isSocks .none fd) (newStm isSocks)
        let handler := if isSocks then FdHandler.socks5 else FdHandler.mng
        let r := selectorRegister w.sel fd handler opRead self a.realloc
        if r.1 = .success then
          .ok ({ w with sel := r.2 }, some ⟨stm, ⟨newRecord isSocks self fd addr, { w with sel := r.2 }⟩⟩)
        else
          let w := closed { w with sel := r.2 }
          .ok (if isSocks then { w with socksPool := w.socksPool.put self }
            else { w with mngPool := w.mngPool.put self }, none)
    else .ok (closed w, none)

end SocksProxy
