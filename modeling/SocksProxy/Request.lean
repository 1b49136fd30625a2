import SocksProxy.Session

/-!
# request.c and resolv.c: the connection request
-/

namespace SocksProxy

open Lib

/-- The size of `struct sockaddr` and of `struct sockaddr_in`. -/
def sizeofSockaddr : Nat := 16
def sizeofSockaddrIn6 : Nat := 28

/-- The ten bytes of a reply. -/
def replyBytes (status : SocksReplyStatus) : List UInt8 :=
  [0x05, status.code, 0x00, socksReqAddrtypeIpv4, 0x00, 0x00, 0x00, 0x00, 0x00, 0x00]

/-- `-1`, here `none`, when the reply does not fit. -/
def requestMarshall (status : SocksReplyStatus) (b : Buffer) : Option Buffer :=
  if h : 10 ≤ bufferWritePtr b then some (bufferPut b (replyBytes status) h) else none

/-- A call of `request_marshall` whose result is not looked at. -/
def Conn.marshalled (c : Conn) (status : SocksReplyStatus) : Conn :=
  { c with writeBuffer := (requestMarshall status c.writeBuffer).getD c.writeBuffer }

def errorHandler (status : SocksReplyStatus) (fd : Int) (c : Conn) : Nat × Conn :=
  (SocksV5State.requestWrite.num, (c.marshalled status).setInterest fd opWrite)

def errorHandlerToClient (status : SocksReplyStatus) (c : Conn) : Nat × Conn :=
  let c := (c.marshalled status).setInterest c.clientFd opWrite
  (SocksV5State.requestWrite.num,
    if c.originFd ≠ -1 then c.setInterest c.originFd opNoop else c)

/-- The mallocs are the parser, the request made by `request_parser_init` and
the request made again. With no parser, the next call stores through NULL. -/
def requestInit (o : Outcome) (fd : Int) (c : Conn) : Result Conn :=
  if o.malloc 0 then
    let failed := SocksReplyStatus.generalSocksServerFailure
    let c := if o.malloc 1 then c else (errorHandler failed fd c).2
    let c := if o.malloc 2 then c else (errorHandler failed fd c).2
    .ok { c with client := .request {
      parser := .live requestParserInit
      nullRequest := !o.malloc 2
      addrFamily := 0
      status := if o.malloc 1 && o.malloc 2 then .succeeded else failed } }
  else .error .nullPointer

def requestClose (_fd : Int) (c : Conn) : Result Conn := do
  let d ← c.request
  let parser ← d.parser.get
  if d.nullRequest then .error .nullPointer
  else if parser.request.destAddrType ≠ socksReqAddrtypeDomain then
    .ok { c with client := .request { d with parser := .null } }
  else .ok c

/-- The key of the thread is the one of this event. -/
def requestProcess (o : Outcome) (fd : Int) (d : RequestSt) (parser : RequestParser) (c : Conn) :
    Nat × Conn :=
  let fail (status : SocksReplyStatus) (d : RequestSt) (c : Conn) : Nat × Conn :=
    errorHandler status fd { c with client := .request { d with status := status } }
  if parser.request.cmd ≠ socksReqCmdConnect then fail .commandNotSupported d c
  else
    let type := parser.request.destAddrType
    if type = socksReqAddrtypeIpv4 then
      (SocksV5State.requestConnecting.num, { c with
        client := .request { d with addrFamily := socksReqAddrtypeIpv4 }
        originDomain := afInet
        originAddrLen := sizeofSockaddr
        originAddr := parser.request.bytesAt 0 sizeofSockaddr })
    else if type = socksReqAddrtypeIpv6 then
      (SocksV5State.requestConnecting.num, { c with
        client := .request { d with addrFamily := socksReqAddrtypeIpv6 }
        originDomain := afInet6
        originAddrLen := sizeofSockaddrIn6
        originAddr := parser.request.bytesAt 0 sizeofSockaddrIn6 })
    else if type = socksReqAddrtypeDomain then
      let d := { d with addrFamily := socksReqAddrtypeDomain }
      if !o.mallocKey then fail .generalSocksServerFailure d c
      else if o.pthreadCreate = -1 then fail .generalSocksServerFailure d c
      else
        let c := { c with client := .request d }
        -- any other error number also leaves the connection without a thread
        let c := if o.pthreadCreate = 0 then
            { c with resolvers := c.resolvers ++ [(fd, c.self)] }.log .threadCreated
          else c
        (SocksV5State.requestResolv.num, c.setInterest fd opNoop)
    else fail .addressTypeNotSupported d c

def requestRead (o : Outcome) (fd : Int) (c : Conn) : Result (Nat × Conn) := do
  let d ← c.request
  if d.status ≠ .succeeded then .ok (SocksV5State.requestWrite.num, c)
  else
    match recvBytes o (bufferWritePtr c.readBuffer) with
    | none => .ok (SocksV5State.error.num, c.log (.recv fd none))
    | some [] => .ok (SocksV5State.error.num, c.log (.recv fd (some [])))
    | some (b :: bytes) =>
      let parser ← d.parser.get
      let r ← requestConsume (bufferFill c.readBuffer (b :: bytes)) parser false
      let d := { d with parser := .live r.2 }
      let c := { c with readBuffer := r.1, client := .request d }
      let c := c.log (.recv fd (some (b :: bytes)))
      if requestIsDone r.2.state false then .ok (requestProcess o fd d r.2 c)
      else .ok (SocksV5State.requestRead.num, c)

def requestWrite (o : Outcome) (fd : Int) (c : Conn) : Result (Nat × Conn) := do
  let _ ← c.request
  match sentBytes o c.writeBuffer with
  | none => .ok (SocksV5State.error.num, c.log (.send fd none))
  | some bytes =>
    let c := { c with writeBuffer := bufferTake c.writeBuffer bytes.length }
    let c := c.log (.send fd (some bytes))
    if bufferCanRead c.writeBuffer then .ok (SocksV5State.requestWrite.num, c)
    else
      let conn ← c.conn
      if conn.status = .succeeded then
        .ok (SocksV5State.copy.num,
          (c.setInterest c.clientFd opRead).setInterest c.originFd opRead)
      else
        let c := c.setInterest c.clientFd opNoop
        .ok (SocksV5State.done.num,
          if c.originFd = -1 then c.setInterest c.originFd opNoop else c)

/-- An address of another family leaves the previous one in place. -/
def setOriginAddr (a : AddrInfo) (c : Conn) : Conn :=
  if a.family = afInet ∨ a.family = afInet6 then { c with originAddr := a.addr } else c

def setOriginDomain (a : AddrInfo) (c : Conn) : Conn :=
  if a.family = afInet then { c with originDomain := afInet, originAddrLen := sizeofSockaddr }
  else if a.family = afInet6 then
    { c with originDomain := afInet6, originAddrLen := sizeofSockaddrIn6 }
  else c

def requestResolvDone (fd : Int) (c : Conn) : Result (Nat × Conn) :=
  match c.originResolution with
  | [] => do
    let conn ← c.conn
    let d ← c.request
    let failed := SocksReplyStatus.generalSocksServerFailure
    .ok (errorHandler failed fd { c with
      orig := .conn { conn with status := failed }
      client := .request { d with status := failed } })
  | current :: rest =>
    let c := { c with originResolutionCurrent := current :: rest }
    .ok (SocksV5State.requestConnecting.num, setOriginAddr current (setOriginDomain current c))

/-! ## What reading a request does -/

theorem request_ok {c : Socks5} {d : RequestSt} : c.request = .ok d ↔ c.client = .request d := by
  unfold Socks5.request
  cases c.client <;> simp

theorem conn_ok {c : Socks5} {d : Connecting} : c.conn = .ok d ↔ c.orig = .conn d := by
  unfold Socks5.conn
  cases c.orig <;> simp

/-- The target of an address request is in the record. -/
def Conn.targeted (c : Conn) (d : RequestSt) (domain : UInt8) (len : Nat) (addr : List UInt8) : Conn :=
  { c with client := .request d, originDomain := domain, originAddrLen := len, originAddr := addr }

/-- The record when the resolver thread was asked for. -/
def Conn.resolving (c : Conn) (d : RequestSt) (fd : Int) (created : Bool) : Conn :=
  let c := { c with client := .request d }
  if created then { c with resolvers := c.resolvers ++ [(fd, c.self)] }.log .threadCreated else c

/-- A finished request is refused, or its address is taken, or it is resolved. -/
theorem requestProcess_cases (o : Outcome) (fd : Int) (d : RequestSt) (p : RequestParser) (c : Conn) :
    (∃ family status, status ≠ .succeeded ∧
        (p.request.cmd = socksReqCmdConnect →
          (p.request.destAddrType = socksReqAddrtypeDomain ∧
              (o.mallocKey = false ∨ o.pthreadCreate = -1)) ∨
            p.request.destAddrType ∉
              [socksReqAddrtypeIpv4, socksReqAddrtypeDomain, socksReqAddrtypeIpv6]) ∧
        requestProcess o fd d p c = errorHandler status fd
          { c with client := .request { d with addrFamily := family, status := status } }) ∨
      (p.request.destAddrType ≠ socksReqAddrtypeDomain ∧ ∃ family domain len addr,
        requestProcess o fd d p c = (SocksV5State.requestConnecting.num,
          c.targeted { d with addrFamily := family } domain len addr)) ∨
      (p.request.destAddrType = socksReqAddrtypeDomain ∧ ∃ created,
        requestProcess o fd d p c = (SocksV5State.requestResolv.num,
          (c.resolving { d with addrFamily := socksReqAddrtypeDomain } fd created).setInterest fd
            opNoop)) := by
  unfold requestProcess
  by_cases connect : p.request.cmd ≠ socksReqCmdConnect
  · refine Or.inl ⟨d.addrFamily, .commandNotSupported, by decide, fun h => absurd h connect, ?_⟩
    simp only [connect, ne_eq, not_false_eq_true, if_true]
  · simp only [connect, if_false]
    by_cases v4 : p.request.destAddrType = socksReqAddrtypeIpv4
    · simp only [v4, if_true]
      exact Or.inr (Or.inl ⟨by decide, _, _, _, _, rfl⟩)
    · by_cases v6 : p.request.destAddrType = socksReqAddrtypeIpv6
      · simp only [v6, if_true]
        exact Or.inr (Or.inl ⟨by decide, _, _, _, _, rfl⟩)
      · by_cases domain : p.request.destAddrType = socksReqAddrtypeDomain
        · have failed : o.mallocKey = false ∨ o.pthreadCreate = -1 ∨
              o.mallocKey = true ∧ o.pthreadCreate ≠ -1 := by
            cases o.mallocKey <;> simp [em]
          simp only [domain, if_true]
          rcases failed with key | thread | ⟨key, thread⟩
          · refine Or.inl ⟨socksReqAddrtypeDomain, .generalSocksServerFailure, by decide,
              fun _ => Or.inl ⟨trivial, Or.inl key⟩, ?_⟩
            simp only [key, Bool.not_false, if_true]
            rfl
          · refine Or.inl ⟨socksReqAddrtypeDomain, .generalSocksServerFailure, by decide,
              fun _ => Or.inl ⟨trivial, Or.inr thread⟩, ?_⟩
            simp only [thread, if_true, ite_self]
            rfl
          · refine Or.inr (Or.inr ⟨trivial, decide (o.pthreadCreate = 0), ?_⟩)
            simp only [key, thread, Bool.not_true, Bool.false_eq_true, if_false, Conn.resolving,
              decide_eq_true_eq]
            rfl
        · simp only [v4, v6, domain, if_false]
          refine Or.inl ⟨d.addrFamily, .addressTypeNotSupported, by decide, fun _ => Or.inr ?_, rfl⟩
          simp [v4, v6, domain]

/-- The record after `recv` gave `bytes` and the parser moved on to `p`. -/
def requestFed (fd : Int) (c : Conn) (d : RequestSt) (bytes : List UInt8) (rb : Buffer)
    (p : RequestParser) : Conn :=
  { c with readBuffer := rb, client := .request { d with parser := .live p } }.log
    (.recv fd (some bytes))

theorem requestRead_ok {o : Outcome} {fd : Int} {c c' : Conn} {ret : Nat}
    (h : requestRead o fd c = .ok (ret, c')) :
    ∃ d, c.client = .request d ∧
      (d.status ≠ .succeeded ∧ ret = SocksV5State.requestWrite.num ∧ c' = c ∨
        d.status = .succeeded ∧ (∃ got, recvBytes o (bufferWritePtr c.readBuffer) = got ∧
          (got = none ∨ got = some []) ∧ ret = SocksV5State.error.num ∧
          c' = c.log (.recv fd got)) ∨
        d.status = .succeeded ∧ ∃ bytes p rb p', bytes ≠ [] ∧
          recvBytes o (bufferWritePtr c.readBuffer) = some bytes ∧ d.parser = .live p ∧
          requestConsume (bufferFill c.readBuffer bytes) p false = .ok (rb, p') ∧
          (p'.state = .done ∧
              (ret, c') = requestProcess o fd { d with parser := .live p' } p'
                (requestFed fd c d bytes rb p') ∨
            p'.state ≠ .done ∧ ret = SocksV5State.requestRead.num ∧
              c' = requestFed fd c d bytes rb p')) := by
  simp only [requestRead] at h
  obtain ⟨d, member, h⟩ := bind_eq_ok.mp h
  refine ⟨d, request_ok.mp member, ?_⟩
  split at h
  · rename_i failed
    simp only [Except.ok.injEq, Prod.mk.injEq] at h
    exact Or.inl ⟨failed, h.1.symm, h.2.symm⟩
  · rename_i fine
    have fine : d.status = .succeeded := by simpa using fine
    refine Or.inr ?_
    split at h
    · rename_i got
      simp only [Except.ok.injEq, Prod.mk.injEq] at h
      exact Or.inl ⟨fine, _, got, Or.inl rfl, h.1.symm, h.2.symm⟩
    · rename_i got
      simp only [Except.ok.injEq, Prod.mk.injEq] at h
      exact Or.inl ⟨fine, _, got, Or.inr rfl, h.1.symm, h.2.symm⟩
    · rename_i b bytes got
      obtain ⟨p, live, h⟩ := bind_eq_ok.mp h
      obtain ⟨⟨rb, p'⟩, consumed, h⟩ := bind_eq_ok.mp h
      refine Or.inr ⟨fine, b :: bytes, p, rb, p', by simp, got, Owned.get_eq_ok.mp live,
        consumed, ?_⟩
      split at h
      · rename_i done
        simp only [requestIsDone, Bool.not_false, Bool.and_true, decide_eq_true_eq] at done
        exact Or.inl ⟨done, (Except.ok.inj h).symm⟩
      · rename_i going
        simp only [requestIsDone, Bool.not_false, Bool.and_true, decide_eq_true_eq] at going
        simp only [Except.ok.injEq, Prod.mk.injEq] at h
        exact Or.inr ⟨going, h.1.symm, h.2.symm⟩

/-! ## What the hooks of REQUEST_READ do -/

theorem requestInit_ok {o : Outcome} {fd : Int} {c c' : Conn} (h : requestInit o fd c = .ok c') :
    o.malloc 1 = true ∧ o.malloc 2 = true ∧
        c' = { c with client := .request ⟨.live requestParserInit, false, 0, .succeeded⟩ } ∨
      (o.malloc 1 = false ∨ o.malloc 2 = false) ∧ ∃ x d, c' = { x with client := .request d } ∧
        (x = (errorHandler .generalSocksServerFailure fd c).2 ∨
          x = (errorHandler .generalSocksServerFailure fd
            (errorHandler .generalSocksServerFailure fd c).2).2) := by
  simp only [requestInit] at h
  split at h
  · rw [Except.ok.injEq] at h
    cases first : o.malloc 1 with
    | false =>
      refine Or.inr ⟨Or.inl rfl, ?_⟩
      cases second : o.malloc 2 <;> simp only [first, second] at h
      · exact ⟨_, _, h.symm, Or.inr rfl⟩
      · exact ⟨_, _, h.symm, Or.inl rfl⟩
    | true =>
      cases second : o.malloc 2 <;> simp only [first, second] at h
      · exact Or.inr ⟨Or.inr rfl, _, _, h.symm, Or.inl rfl⟩
      · exact Or.inl ⟨rfl, rfl, h.symm⟩
  · cases h

theorem requestClose_ok {fd : Int} {c c' : Conn} (h : requestClose fd c = .ok c') :
    ∃ d, c' = { c with client := .request d } ∧ d.parser ≠ .freed := by
  simp only [requestClose] at h
  obtain ⟨d, member, h⟩ := bind_eq_ok.mp h
  obtain ⟨parser, live, h⟩ := bind_eq_ok.mp h
  split at h
  · cases h
  · split at h
    · exact ⟨_, (Except.ok.inj h).symm, by simp⟩
    · refine ⟨d, ?_, ?_⟩
      · rw [← Except.ok.inj h, ← request_ok.mp member]
      · rw [Owned.get_eq_ok.mp live]
        simp

/-! ## What sending the reply does -/

/-- The origin's status of a record whose replies are all sent decides where it goes. -/
theorem requestWrite_ok {o : Outcome} {fd : Int} {c c' : Conn} {ret : Nat}
    (h : requestWrite o fd c = .ok (ret, c')) :
    sentBytes o c.writeBuffer = none ∧ ret = SocksV5State.error.num ∧ c' = c.log (.send fd none) ∨
      ∃ bytes, sentBytes o c.writeBuffer = some bytes ∧
        (bufferReadPtr (c.sentOff fd bytes).writeBuffer ≠ [] ∧
            ret = SocksV5State.requestWrite.num ∧ c' = c.sentOff fd bytes ∨
          bufferReadPtr (c.sentOff fd bytes).writeBuffer = [] ∧ ∃ conn, c.orig = .conn conn ∧
            (conn.status = .succeeded ∧ ret = SocksV5State.copy.num ∧
                c' = ((c.sentOff fd bytes).setInterest c.clientFd opRead).setInterest c.originFd
                  opRead ∨
              conn.status ≠ .succeeded ∧ ret = SocksV5State.done.num ∧
                c' = if c.originFd = -1 then
                    ((c.sentOff fd bytes).setInterest c.clientFd opNoop).setInterest c.originFd opNoop
                  else (c.sentOff fd bytes).setInterest c.clientFd opNoop)) := by
  simp only [requestWrite] at h
  obtain ⟨d, -, h⟩ := bind_eq_ok.mp h
  split at h
  · rename_i failed
    simp only [Except.ok.injEq, Prod.mk.injEq] at h
    exact Or.inl ⟨failed, h.1.symm, h.2.symm⟩
  · rename_i bytes sent
    refine Or.inr ⟨bytes, sent, ?_⟩
    split at h
    · rename_i more
      simp only [Except.ok.injEq, Prod.mk.injEq] at h
      refine Or.inl ⟨fun flushed => ?_, h.1.symm, h.2.symm⟩
      exact nomatch more.symm.trans (bufferCanRead_eq_false.mpr flushed)
    · rename_i flushed
      rw [Bool.not_eq_true] at flushed
      refine Or.inr ⟨bufferCanRead_eq_false.mp flushed, ?_⟩
      obtain ⟨conn, member, h⟩ := bind_eq_ok.mp h
      refine ⟨conn, conn_ok.mp member, ?_⟩
      split at h
      · rename_i succeeded
        simp only [Except.ok.injEq, Prod.mk.injEq] at h
        exact Or.inl ⟨succeeded, h.1.symm, h.2.symm⟩
      · rename_i failed
        simp only [Except.ok.injEq, Prod.mk.injEq] at h
        exact Or.inr ⟨failed, h.1.symm, h.2.symm⟩

end SocksProxy
