import SocksProxy.Request

/-!
# connecting.c: the connection to the origin
-/

namespace SocksProxy

open Lib

def errnoToSocks : Errno → SocksReplyStatus
  | .econnrefused => .connectionRefused
  | .ehostunreach => .hostUnreachable
  | .enetunreach => .networkUnreachable
  | .etimedout => .ttlExpired
  | .einprogress | .ebadf | .other _ => .generalSocksServerFailure

/-- `data->orig.conn.status = status`. -/
def Conn.setConnStatus (c : Conn) (status : SocksReplyStatus) : Result Conn := do
  let conn ← c.conn
  .ok { c with orig := .conn { conn with status := status } }

/-- `connect` on the origin socket, which fails with `EBADF` when it is not open. -/
def connectResult (o : Outcome) (c : Conn) : Option Errno :=
  if c.isOpen c.originFd then o.connect else some .ebadf

def Conn.closeFd (c : Conn) (fd : Int) : Conn :=
  { c with isOpen := Function.update c.isOpen fd false }.log (.close fd)

/-- The status of the attempt, stored, answered to the client and returned. -/
def connectionFailed (status : SocksReplyStatus) (c : Conn) : Result (SocksReplyStatus × Conn) := do
  let c ← c.setConnStatus status
  .ok (status, (errorHandlerToClient status c).2)

def Conn.registerOrigin (o : Outcome) (interest : FdInterest) (c : Conn) : SelectorStatus × Conn :=
  let r := selectorRegister c.sel c.originFd .socks5 interest c.self o.realloc
  (r.1, { c with sel := r.2 }.log (.register c.originFd r.1))

def connection (o : Outcome) (fd : Int) (c : Conn) : Result (SocksReplyStatus × Conn) := do
  let c := { c with metrics := { c.metrics with
    historicConnectionsAttempts := c.metrics.historicConnectionsAttempts + 1 } }
  let result := connectResult o c
  let c := c.log (.connect c.originFd c.originAddr c.originAddrLen result)
  match result with
  | some .einprogress =>
    if c.interestStatus fd opNoop ≠ .success then
      connectionFailed .generalSocksServerFailure c
    else
      let r := (c.setInterest fd opNoop).registerOrigin o opWrite
      if r.1 ≠ .success then
        let f ← connectionFailed .generalSocksServerFailure r.2
        .ok (f.1, { f.2.closeFd f.2.originFd with originFd := -1 })
      else .ok (.succeeded, { r.2 with references := r.2.references + 1 })
  | some e =>
    let d ← c.request
    connectionFailed (errnoToSocks e)
      { c with client := .request { d with status := errnoToSocks e } }
  | none =>
    let c := { c with references := c.references + 1 }
    if c.interestStatus fd opRead ≠ .success then
      connectionFailed .generalSocksServerFailure c
    else
      let r := (c.setInterest fd opRead).registerOrigin o opRead
      if r.1 ≠ .success then connectionFailed .generalSocksServerFailure r.2
      else .ok (.succeeded, r.2)

def connectingInit (o : Outcome) (fd : Int) (c : Conn) : Result Conn := do
  let c := { c with orig := .conn ⟨c.clientFd, -1, .succeeded⟩ }
  match o.socket with
  | none =>
    let f ← connectionFailed .generalSocksServerFailure ({ c with originFd := -1 }.log (.socket (-1)))
    .ok f.2
  | some n =>
    let c := { c with originFd := n, isOpen := Function.update c.isOpen n true }.log (.socket n)
    if o.setNio then
      let r ← connection o fd c
      r.2.setConnStatus r.1
    else
      let f ← connectionFailed .generalSocksServerFailure c
      .ok f.2

/-- The next address, if the list goes on: `connection` is tried on it and its
result is dropped. -/
def nextAddress (o : Outcome) (fd : Int) (next : AddrInfo) (rest : List AddrInfo) (c : Conn) :
    Result (Nat × Conn) := do
  let r ← connection o fd (setOriginAddr next { c with originResolutionCurrent := next :: rest })
  .ok (SocksV5State.requestConnecting.num, r.2)

/-- `users[userIndex].name` is printed with the status. -/
def Conn.accessLog (c : Conn) (status : SocksReplyStatus) : Conn :=
  c.log (.accessLog (c.users.slots c.userIndex).name status)

def Conn.freeResolution (c : Conn) (d : RequestSt) : Conn :=
  if d.addrFamily = socksReqAddrtypeDomain then c.log .freeaddrinfo else c

def countConnection (m : Metrics) : Metrics :=
  let concurrent := m.concurrentConnections + 1
  { m with
    historicConnections := m.historicConnections + 1
    concurrentConnections := concurrent
    maxConcurrentConnections :=
      if concurrent > m.maxConcurrentConnections then concurrent else m.maxConcurrentConnections }

/-- `handle_close` of the record at `data`, run by `selector_unregister_fd`. -/
def Pool.put (p : Pool) (data : Nat) : Pool :=
  if p.size < maxPool then ⟨p.size + 1, data :: p.list⟩ else p

def socks5Destroy (data : Nat) (c : Conn) : Conn :=
  if data = c.self then
    if c.references = 1 then { c with socksPool := c.socksPool.put data }.log .released
    else { c with references := c.references - 1 }
  else { c with strays := c.strays ++ [data] }

def mngDestroy (data : Nat) (c : Conn) : Conn :=
  if data = c.self then
    if c.references = 1 then { c with mngPool := c.mngPool.put data }.log .released
    else { c with references := c.references - 1 }
  else { c with strays := c.strays ++ [data] }

/-- The `handle_close` callback of an item; the passive sockets have none. -/
def handleClose (item : Item) (c : Conn) : Conn :=
  match item.handler with
  | .socks5 => socks5Destroy item.data c
  | .mng => mngDestroy item.data c
  | .socksPassive | .mngPassive => c

def Conn.unregister (c : Conn) (fd : Int) : SelectorStatus × Conn :=
  let r := selectorUnregisterFd handleClose c.sel c fd
  (r.1, { r.2.2 with sel := r.2.1 })

def connectingWrite (o : Outcome) (fd : Int) (c : Conn) : Result (Nat × Conn) := do
  let conn ← c.conn
  if conn.status ≠ .succeeded then
    match c.originResolutionCurrent with
    | _ :: next :: rest => nextAddress o fd next rest c
    | _ =>
      let c := (c.unregister c.originFd).2
      let c := { c.closeFd c.originFd with originFd := -1 }
      .ok (errorHandlerToClient conn.status c)
  else
    let c := c.log (.getsockopt fd o.getsockopt)
    match o.getsockopt with
    | none =>
      let c ← c.setConnStatus .generalSocksServerFailure
      .ok (errorHandlerToClient .generalSocksServerFailure
        (c.accessLog .generalSocksServerFailure))
    | some none =>
      let c := { c with metrics := countConnection c.metrics }.log .counted
      let d ← c.request
      let c := (c.accessLog .succeeded).freeResolution d
      let c := { c with orig := .conn { conn with status := .succeeded, originFd := fd } }
      match requestMarshall .succeeded c.writeBuffer with
      | none => .ok (SocksV5State.error.num, c)
      | some wb =>
        let c := { c with writeBuffer := wb }
        let first := c.interestStatus conn.clientFd opWrite
        let c := c.setInterest conn.clientFd opWrite
        let second := c.interestStatus fd opNoop
        let c := c.setInterest fd opNoop
        .ok (if first = .success ∧ second = .success then SocksV5State.requestWrite.num
          else SocksV5State.error.num, c)
    | some (some e) =>
      let c ← c.setConnStatus (errnoToSocks e)
      match c.originResolutionCurrent with
      | _ :: next :: rest => nextAddress o fd next rest c
      | [] => .ok (errorHandlerToClient (errnoToSocks e) (c.accessLog (errnoToSocks e)))
      | [_] =>
        let d ← c.request
        .ok (errorHandlerToClient (errnoToSocks e)
          ((c.accessLog (errnoToSocks e)).freeResolution d))

/-- The parser was set to NULL by `request_close` unless the address is a domain. -/
def connectingClose (_fd : Int) (c : Conn) : Result Conn := do
  let d ← c.request
  match d.parser with
  | .null => .ok c
  | .live _ => .ok { c with client := .request { d with parser := .freed } }
  | .freed => .error .useAfterFree

theorem connectingClose_ok {fd : Int} {c c' : Conn} (h : connectingClose fd c = .ok c') :
    ∃ d, c' = { c with client := .request d } := by
  simp only [connectingClose] at h
  obtain ⟨d, member, h⟩ := bind_eq_ok.mp h
  split at h
  · refine ⟨d, ?_⟩
    rw [← Except.ok.inj h, ← request_ok.mp member]
  · exact ⟨_, (Except.ok.inj h).symm⟩
  · cases h

end SocksProxy
