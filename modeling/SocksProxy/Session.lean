import SocksProxy.Dissector
import SocksProxy.HelloParser
import SocksProxy.MyParser
import SocksProxy.RequestParser
import SocksProxy.Selector
import SocksProxy.Stm

/-!
# The connection record and what it runs in

`Socks5` is `struct socks5` of one connection, `World` the globals of the
server, the kernel's descriptor table and the running resolver threads. A
handler acts on both. `Outcome` holds what the system calls and allocations
of one event return; `calls` is not in the source, it is their history.

An allocation whose result the source never tests is taken to succeed.
-/

namespace SocksProxy

open Lib

/-! ## States of the two tables -/

inductive SocksV5State
  | helloRead
  | helloWrite
  | userpassRead
  | userpassWrite
  | requestRead
  | requestResolv
  | requestConnecting
  | requestWrite
  | copy
  | done
  | error
  deriving DecidableEq, Repr

inductive MngState
  | helloRead
  | helloWrite
  | userpassRead
  | userpassWrite
  | requestReadIndex
  | requestRead
  | requestWrite
  | done
  | error
  deriving DecidableEq, Repr

/-- The enumerators' numbers. -/
def SocksV5State.num : SocksV5State → Nat
  | .helloRead => 0
  | .helloWrite => 1
  | .userpassRead => 2
  | .userpassWrite => 3
  | .requestRead => 4
  | .requestResolv => 5
  | .requestConnecting => 6
  | .requestWrite => 7
  | .copy => 8
  | .done => 9
  | .error => 10

def MngState.num : MngState → Nat
  | .helloRead => 0
  | .helloWrite => 1
  | .userpassRead => 2
  | .userpassWrite => 3
  | .requestReadIndex => 4
  | .requestRead => 5
  | .requestWrite => 6
  | .done => 7
  | .error => 8

/-! ## Status codes -/

inductive SocksReplyStatus
  | succeeded
  | generalSocksServerFailure
  | connectionNotAllowedByRuleset
  | networkUnreachable
  | hostUnreachable
  | connectionRefused
  | ttlExpired
  | commandNotSupported
  | addressTypeNotSupported
  deriving DecidableEq, Repr

def SocksReplyStatus.code : SocksReplyStatus → UInt8
  | .succeeded => 0x00
  | .generalSocksServerFailure => 0x01
  | .connectionNotAllowedByRuleset => 0x02
  | .networkUnreachable => 0x03
  | .hostUnreachable => 0x04
  | .connectionRefused => 0x05
  | .ttlExpired => 0x06
  | .commandNotSupported => 0x07
  | .addressTypeNotSupported => 0x08

inductive MngReplyStatus
  | succeeded
  | serverError
  | indexNotSupported
  | maxUsersReached
  deriving DecidableEq, Repr

def MngReplyStatus.code : MngReplyStatus → UInt8
  | .succeeded => 0x00
  | .serverError => 0x01
  | .indexNotSupported => 0x02
  | .maxUsersReached => 0x03

inductive Errno
  | einprogress
  | econnrefused
  | ehostunreach
  | enetunreach
  | etimedout
  | ebadf
  | other (n : Nat)
  deriving DecidableEq, Repr

/-! ## The members of the two unions -/

inductive HelloStatus
  | error
  | success
  deriving DecidableEq, Repr

structure HelloSt where
  parser : Owned HelloParser
  method : UInt8
  status : HelloStatus

inductive AuthStatus
  | error
  | success
  deriving DecidableEq, Repr

structure UserpassSt where
  parser : Owned ParserCell
  status : AuthStatus

/-- `nullRequest` is `parser->request == NULL`. The pointers to fields of the
record itself are left out: each always points to the field of its name. -/
structure RequestSt where
  parser : Owned RequestParser
  nullRequest : Bool
  addrFamily : UInt8
  status : SocksReplyStatus

structure Connecting where
  clientFd : Int
  originFd : Int
  status : SocksReplyStatus
  deriving DecidableEq, Repr

/-- Which buffer of the record a `copy_st` points to. -/
inductive BufferRef
  | readBuffer
  | writeBuffer
  deriving DecidableEq, Repr

/-- Which union of the record holds a `copy_st`. -/
inductive Side
  | client
  | orig
  deriving DecidableEq, Repr

structure CopySt where
  fd : Int
  rb : BufferRef
  wb : BufferRef
  interest : FdInterest
  otherCopy : Side
  deriving DecidableEq, Repr

structure MngRequestSt where
  parser : Owned ParserCell
  status : MngReplyStatus
  index : UInt8

/-- The union of the client side, with the member that was last written. -/
inductive ClientSt
  | zeroed
  | hello (d : HelloSt)
  | userpass (d : UserpassSt)
  | request (d : RequestSt)
  | mngRequest (d : MngRequestSt)
  | copy (d : CopySt)

/-- The union of the origin side; zeroed, it reads as a `connecting`. -/
inductive OrigSt
  | conn (d : Connecting)
  | copy (d : CopySt)

structure AddrInfo where
  family : UInt8
  addr : List UInt8
  deriving DecidableEq, Repr

/-! ## The calls a connection makes -/

inductive How
  | shutRd
  | shutWr
  deriving DecidableEq, Repr

/-- `recv` and `send` carry the bytes they moved, `none` for -1. -/
inductive Call
  | helloReadInit (method : UInt8)
  | recv (fd : Int) (bytes : Option (List UInt8))
  | send (fd : Int) (bytes : Option (List UInt8))
  | shutdown (fd : Int) (how : How)
  | checkCredentials (username password : Option (List UInt8)) (result : UInt8)
  | checkMngCredentials (username password : Option (List UInt8)) (result : UInt8)
  | socket (fd : Int)
  | connect (fd : Int) (addr : List UInt8) (len : Nat) (result : Option Errno)
  | register (fd : Int) (status : SelectorStatus)
  | getsockopt (fd : Int) (error : Option (Option Errno))
  | close (fd : Int)
  | counted
  | accessLog (name : Ptr) (status : SocksReplyStatus)
  | freeaddrinfo
  | threadCreated
  | released
  deriving DecidableEq, Repr

/-- What the environment answers during one event. `malloc` answers the
allocations of an arrival hook in order. -/
structure Outcome where
  recv : Option (List UInt8)
  send : Option Nat
  malloc : Nat → Bool
  mallocKey : Bool
  pthreadCreate : Int
  socket : Option Nat
  setNio : Bool
  connect : Option Errno
  realloc : Bool
  getsockopt : Option (Option Errno)

/-! ## The record and the world -/

structure Socks5 where
  /-- The address of the record, which its registrations carry as `data`. -/
  self : Nat
  clientAddr : List UInt8
  clientFd : Int
  originResolution : List AddrInfo
  originResolutionCurrent : List AddrInfo
  originAddr : List UInt8
  originAddrLen : Nat
  originDomain : UInt8
  originFd : Int
  errorState : Nat
  doneState : Nat
  isSocks : Bool
  client : ClientSt
  orig : OrigSt
  readBuffer : Buffer
  writeBuffer : Buffer
  references : Nat
  authentication : UInt8
  userIndex : Nat
  dissecParser : DissecParser
  calls : List Call

structure Metrics where
  historicConnections : UInt64
  concurrentConnections : UInt64
  maxConcurrentConnections : UInt64
  historicByteTransfer : UInt64
  historicAuthAttempts : UInt64
  historicConnectionsAttempts : UInt64
  totalReads : UInt64
  averageBytesPerRead : UInt64
  totalWrites : UInt64
  averageBytesPerWrite : UInt64
  deriving DecidableEq, Repr

def Metrics.zero : Metrics := ⟨0, 0, 0, 0, 0, 0, 0, 0, 0, 0⟩

/-- A pool of released records: its counter and its list. -/
structure Pool where
  size : Nat
  list : List Nat
  deriving DecidableEq, Repr

def maxPool : Nat := 50

structure World where
  sel : FdSelector
  /-- The descriptors that are open in the process. -/
  isOpen : Int → Bool
  authMethod : UInt8
  passwordDissectors : UInt8
  heap : Heap
  users : UserTable
  admins : UserTable
  metrics : Metrics
  socksPool : Pool
  mngPool : Pool
  /-- The running resolver threads, each with the key it was given. -/
  resolvers : List (Int × Nat)
  /-- Records of other connections whose close callback was called here. -/
  strays : List Nat

structure Conn extends Socks5, World

/-! ## Access to the parts -/

def Conn.log (c : Conn) (call : Call) : Conn := { c with calls := c.calls ++ [call] }

def Socks5.hello (c : Socks5) : Result HelloSt :=
  match c.client with
  | .hello d => .ok d
  | _ => .error .wrongMember

def Socks5.userpass (c : Socks5) : Result UserpassSt :=
  match c.client with
  | .userpass d => .ok d
  | _ => .error .wrongMember

def Socks5.request (c : Socks5) : Result RequestSt :=
  match c.client with
  | .request d => .ok d
  | _ => .error .wrongMember

def Socks5.mngRequest (c : Socks5) : Result MngRequestSt :=
  match c.client with
  | .mngRequest d => .ok d
  | _ => .error .wrongMember

def Socks5.conn (c : Socks5) : Result Connecting :=
  match c.orig with
  | .conn d => .ok d
  | .copy _ => .error .wrongMember

def Socks5.copySide (c : Socks5) (side : Side) : Result CopySt :=
  match side with
  | .client => match c.client with
    | .copy d => .ok d
    | _ => .error .wrongMember
  | .orig => match c.orig with
    | .copy d => .ok d
    | .conn _ => .error .wrongMember

def Conn.setCopy (c : Conn) (side : Side) (d : CopySt) : Conn :=
  match side with
  | .client => { c with client := .copy d }
  | .orig => { c with orig := .copy d }

def Socks5.buffer (c : Socks5) (b : BufferRef) : Buffer :=
  match b with
  | .readBuffer => c.readBuffer
  | .writeBuffer => c.writeBuffer

def Conn.setBuffer (c : Conn) (r : BufferRef) (b : Buffer) : Conn :=
  match r with
  | .readBuffer => { c with readBuffer := b }
  | .writeBuffer => { c with writeBuffer := b }

/-! ## System calls -/

def selectorStatus (s : FdSelector) (fd : Int) (i : FdInterest) : SelectorStatus :=
  (selectorSetInterest s fd i).1

def Conn.interestStatus (c : Conn) (fd : Int) (i : FdInterest) : SelectorStatus :=
  selectorStatus c.sel fd i

def Conn.setInterest (c : Conn) (fd : Int) (i : FdInterest) : Conn :=
  { c with sel := (selectorSetInterest c.sel fd i).2 }

/-- `recv` never returns more than it was asked for. -/
def recvBytes (o : Outcome) (count : Nat) : Option (List UInt8) := o.recv.map (List.take count)

/-- Bytes that `recv` stored at the write pointer, which then moves past them. -/
def bufferFill (b : Buffer) (bytes : List UInt8) : Buffer :=
  bufferPut b (bytes.take (bufferWritePtr b)) (List.length_take_le _ _)

/-- The bytes of a buffer that `send` accepted; it never accepts more than it was offered. -/
def sentBytes (o : Outcome) (b : Buffer) : Option (List UInt8) :=
  o.send.map fun n => (bufferReadPtr b).take n

/-! ## What most handlers leave alone -/

/-- The identity of a record, its descriptors and its reference count. -/
structure Conn.Same (c c' : Conn) : Prop where
  self : c'.self = c.self
  clientFd : c'.clientFd = c.clientFd
  originFd : c'.originFd = c.originFd
  errorState : c'.errorState = c.errorState
  doneState : c'.doneState = c.doneState
  isSocks : c'.isSocks = c.isSocks
  references : c'.references = c.references
  isOpen : c'.isOpen = c.isOpen

theorem Conn.Same.refl (c : Conn) : c.Same c := ⟨rfl, rfl, rfl, rfl, rfl, rfl, rfl, rfl⟩

theorem Conn.Same.trans {c d e : Conn} (h : c.Same d) (k : d.Same e) : c.Same e :=
  ⟨k.1.trans h.1, k.2.trans h.2, k.3.trans h.3, k.4.trans h.4, k.5.trans h.5, k.6.trans h.6,
    k.7.trans h.7, k.8.trans h.8⟩

/-! ## What the negotiation leaves alone -/

/-- A call of the negotiation. -/
def Call.Negotiates : Call → Prop
  | .helloReadInit _ | .recv _ _ | .send _ _ | .checkCredentials _ _ _
  | .checkMngCredentials _ _ _ => True
  | _ => False

/-- What the hooks and handlers of the negotiation leave of a record, at an event on `fd`. -/
structure Conn.Talked (c : Conn) (fd : Int) (c' : Conn) : Prop where
  same : c.Same c'
  tuned : c.sel.Retuned [fd] c'.sel
  method : c'.authMethod = c.authMethod
  left : c'.originResolutionCurrent = c.originResolutionCurrent
  orig : c'.orig = c.orig
  calls : ∃ more, c'.calls = c.calls ++ more ∧ ∀ call ∈ more, call.Negotiates
  limit : c'.writeBuffer.limit = c.writeBuffer.limit
  rewound : c.writeBuffer.Rewound → c'.writeBuffer.Rewound

section
variable {c d e : Conn} {fd : Int}

theorem interestStatus_success {i : FdInterest} :
    c.interestStatus fd i = .success ↔ c.sel.Registered fd := by
  simp [Conn.interestStatus, selectorStatus, setInterest_status]

theorem Conn.Talked.trans (h : c.Talked fd d) (k : d.Talked fd e) : c.Talked fd e := by
  obtain ⟨xs, hx, negotiates⟩ := h.calls
  obtain ⟨ys, hy, negotiates'⟩ := k.calls
  have tuned := h.tuned.trans k.tuned
  refine ⟨h.same.trans k.same, ⟨tuned.size, tuned.jobs, tuned.slot, fun f out => ?_⟩,
    k.method.trans h.method, k.left.trans h.left, k.orig.trans h.orig, ⟨xs ++ ys, ?_, ?_⟩,
    k.limit.trans h.limit, fun rewound => k.rewound (h.rewound rewound)⟩
  · exact tuned.outside f (by simpa using out)
  · rw [hy, hx, List.append_assoc]
  · intro call member
    rcases List.mem_append.mp member with member | member
    · exact negotiates call member
    · exact negotiates' call member

/-- A change of the fields that only the negotiation uses, with no call. -/
theorem talked_fields (same : c.Same d) (sel : d.sel = c.sel) (method : d.authMethod = c.authMethod)
    (left : d.originResolutionCurrent = c.originResolutionCurrent) (orig : d.orig = c.orig)
    (calls : d.calls = c.calls) (limit : d.writeBuffer.limit = c.writeBuffer.limit)
    (rewound : c.writeBuffer.Rewound → d.writeBuffer.Rewound) : c.Talked fd d :=
  ⟨same, by rw [sel]; exact .refl _ _, method, left, orig,
    ⟨[], by rw [calls, List.append_nil], fun _ member => nomatch member⟩, limit, rewound⟩

theorem Conn.Talked.refl (c : Conn) (fd : Int) : c.Talked fd c :=
  talked_fields (.refl c) rfl rfl rfl rfl rfl rfl id

theorem talked_writeBuffer (c : Conn) (fd : Int) {wb : Buffer}
    (limit : wb.limit = c.writeBuffer.limit) (rewound : c.writeBuffer.Rewound → wb.Rewound) :
    c.Talked fd { c with writeBuffer := wb } :=
  talked_fields ⟨rfl, rfl, rfl, rfl, rfl, rfl, rfl, rfl⟩ rfl rfl rfl rfl rfl limit rewound

theorem talked_log (c : Conn) (fd : Int) {call : Call} (h : call.Negotiates) :
    c.Talked fd (c.log call) :=
  ⟨⟨rfl, rfl, rfl, rfl, rfl, rfl, rfl, rfl⟩, .refl _ _, rfl, rfl, rfl,
    ⟨[call], rfl, fun _ member => List.mem_singleton.mp member ▸ h⟩, rfl, id⟩

theorem talked_setInterest (c : Conn) (fd : Int) (i : FdInterest) :
    c.Talked fd (c.setInterest fd i) :=
  ⟨⟨rfl, rfl, rfl, rfl, rfl, rfl, rfl, rfl⟩, setInterest_retuned _ _ _, rfl, rfl, rfl,
    ⟨[], (List.append_nil _).symm, fun _ member => nomatch member⟩, rfl, id⟩

/-- The record after `send` took `bytes` of what is to be written. -/
def Conn.sentOff (c : Conn) (fd : Int) (bytes : List UInt8) : Conn :=
  { c with writeBuffer := bufferTake c.writeBuffer bytes.length }.log (.send fd (some bytes))

theorem talked_sentOff (c : Conn) (fd : Int) (bytes : List UInt8) :
    c.Talked fd (c.sentOff fd bytes) :=
  ⟨⟨rfl, rfl, rfl, rfl, rfl, rfl, rfl, rfl⟩, .refl _ _, rfl, rfl, rfl,
    ⟨[_], rfl, by simp [Call.Negotiates]⟩, bufferTake_limit _ _,
    fun _ => bufferTake_rewound _ _⟩

end

/-! ## The history of a descriptor -/

/-- The bytes a call took from `fd`. -/
def Call.received (fd : Int) : Call → List UInt8
  | .recv f (some bytes) => if f = fd then bytes else []
  | _ => []

/-- The bytes a call put on `fd`. -/
def Call.sent (fd : Int) : Call → List UInt8
  | .send f (some bytes) => if f = fd then bytes else []
  | _ => []

def receivedFrom (fd : Int) (calls : List Call) : List UInt8 := calls.flatMap (Call.received fd)

def sentTo (fd : Int) (calls : List Call) : List UInt8 := calls.flatMap (Call.sent fd)

@[simp] theorem receivedFrom_append (fd : Int) (xs ys : List Call) :
    receivedFrom fd (xs ++ ys) = receivedFrom fd xs ++ receivedFrom fd ys := by
  simp [receivedFrom]

@[simp] theorem sentTo_append (fd : Int) (xs ys : List Call) :
    sentTo fd (xs ++ ys) = sentTo fd xs ++ sentTo fd ys := by
  simp [sentTo]

theorem recvBytes_le {o : Outcome} {count : Nat} {bytes : List UInt8}
    (h : recvBytes o count = some bytes) : bytes.length ≤ count := by
  obtain ⟨got, -, rfl⟩ := Option.map_eq_some_iff.mp h
  exact List.length_take_le _ _

@[simp] theorem bufferFill_limit (b : Buffer) (bytes : List UInt8) :
    (bufferFill b bytes).limit = b.limit := rfl

theorem bufferFill_readPtr {b : Buffer} {bytes : List UInt8}
    (h : bytes.length ≤ bufferWritePtr b) :
    bufferReadPtr (bufferFill b bytes) = bufferReadPtr b ++ bytes := by
  simp [bufferFill, List.take_of_length_le h]

theorem bufferFill_rewound {b : Buffer} {bytes : List UInt8} (hb : b.Rewound) :
    (bufferFill b bytes).Rewound := bufferPut_rewound _ hb

theorem sentBytes_eq {o : Outcome} {b : Buffer} {bytes : List UInt8}
    (h : sentBytes o b = some bytes) : bytes = (bufferReadPtr b).take bytes.length := by
  obtain ⟨n, -, rfl⟩ := Option.map_eq_some_iff.mp h
  simp [List.length_take]

end SocksProxy
