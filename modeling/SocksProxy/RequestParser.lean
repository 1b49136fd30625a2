import Mathlib.Logic.Function.Basic
import SocksProxy.Buffer

/-!
# request_parser.c: the parser of the connection request

The union of `struct request` is a memory of bytes: `sin_port` and `sin_addr`
at offsets 2 and 4, `sin6_port` and `sin6_addr` at 2 and 8, `host` at 0. The
length of a host lies past all of these and is a field. `stores` is not in the
source: it records the target and index of every indexed store.
-/

namespace SocksProxy

open Lib

inductive RequestState
  | version
  | cmd
  | rsv
  | atyp
  | destAddr
  | destAddrFqdn
  | destPort
  | done
  | error
  | errorUnsupportedCmd
  | errorUnsupportedType
  | errorUnsupportedVersion
  deriving DecidableEq, Repr

def socksReqCmdConnect : UInt8 := 0x01
def socksReqAddrtypeIpv4 : UInt8 := 0x01
def socksReqAddrtypeDomain : UInt8 := 0x03
def socksReqAddrtypeIpv6 : UInt8 := 0x04
def ipv4Len : UInt8 := 4
def ipv6Len : UInt8 := 16
def maxFqdnSize : UInt8 := 0xFF
def afInet : UInt8 := 2
def afInet6 : UInt8 := 10

inductive StoreTarget
  | sinAddr
  | sin6Addr
  | host
  | destPort
  deriving DecidableEq, Repr

structure Request where
  cmd : UInt8
  destAddrType : UInt8
  memory : Int → UInt8
  fqdnSize : Nat
  destPort : List UInt8

structure RequestParser where
  request : Request
  state : RequestState
  remaining : UInt8
  read : UInt8
  stores : List (StoreTarget × Int)

/-- A freshly allocated parser and request; what the allocator left in the
request is not relied on. -/
def requestParserInit : RequestParser where
  request := ⟨0, 0, fun _ => 0, 0, [0, 0]⟩
  state := .version
  remaining := 0
  read := 0
  stores := []

def StoreTarget.offset : StoreTarget → Int
  | .sinAddr => 4
  | .sin6Addr => 8
  | .host => 0
  | .destPort => 0

/-- A store at index `i` of a member of the union. -/
def RequestParser.store (p : RequestParser) (t : StoreTarget) (i : Int) (b : UInt8) :
    RequestParser :=
  { p with
    request := { p.request with memory := Function.update p.request.memory (t.offset + i) b }
    stores := p.stores ++ [(t, i)] }

def remainingSet (p : RequestParser) (n : UInt8) : RequestParser :=
  { p with remaining := n, read := 0 }

def remainingIsDone (p : RequestParser) : Bool := decide (p.read ≥ p.remaining)

/-- `memset` of the first `n` bytes of the union, which then start with the family. -/
def addressInit (r : Request) (n : Int) (family : UInt8) : Request :=
  { r with memory := fun i => if i = 0 then family else if 0 < i ∧ i < n then 0 else r.memory i }

def versionState (b : UInt8) : RequestState :=
  if b = 0x05 then .cmd else .errorUnsupportedVersion

def cmdState (p : RequestParser) (b : UInt8) : RequestParser × RequestState :=
  if b = socksReqCmdConnect then
    ({ p with request := { p.request with cmd := b } }, .rsv)
  else (p, .errorUnsupportedCmd)

def addressType (p : RequestParser) (b : UInt8) : RequestParser × RequestState :=
  let p := { p with request := { p.request with destAddrType := b } }
  if b = socksReqAddrtypeIpv4 then
    let p := remainingSet p ipv4Len
    ({ p with request := addressInit p.request 16 afInet }, .destAddr)
  else if b = socksReqAddrtypeDomain then (p, .destAddrFqdn)
  else if b = socksReqAddrtypeIpv6 then
    let p := remainingSet p ipv6Len
    ({ p with request := addressInit p.request 28 afInet6 }, .destAddr)
  else (p, .errorUnsupportedType)

def destAddressFqdn (p : RequestParser) (b : UInt8) : RequestParser × RequestState :=
  if b > maxFqdnSize - 1 then (p, .error)
  else
    let p := remainingSet p b
    -- with a zero length this is `host[-1]`, the byte before the union
    let p := p.store .host ((p.remaining.toNat : Int) - 1) 0
    ({ p with request := { p.request with fqdnSize := b.toNat } }, .destAddr)

def destAddr (p : RequestParser) (b : UInt8) : RequestParser × RequestState :=
  let p :=
    if p.request.destAddrType = socksReqAddrtypeIpv4 then
      { p.store .sinAddr p.read.toNat b with read := p.read + 1 }
    else if p.request.destAddrType = socksReqAddrtypeDomain then
      { p.store .host p.read.toNat b with read := p.read + 1 }
    else if p.request.destAddrType = socksReqAddrtypeIpv6 then
      { p.store .sin6Addr p.read.toNat b with read := p.read + 1 }
    else p
  if remainingIsDone p then
    let p := remainingSet p 2
    ({ p with request := { p.request with destPort := [0, 0] } }, .destPort)
  else (p, .destAddr)

/-- The port is copied to `sin_port` or `sin6_port`, which have one offset. -/
def setPort (p : RequestParser) : RequestParser :=
  if p.request.destAddrType = socksReqAddrtypeIpv4 ∨
      p.request.destAddrType = socksReqAddrtypeIpv6 then
    let memory := Function.update (Function.update p.request.memory 2 (p.request.destPort.getD 0 0))
      3 (p.request.destPort.getD 1 0)
    { p with request := { p.request with memory := memory } }
  else p

def destPort (p : RequestParser) (b : UInt8) : RequestParser × RequestState :=
  let p := { p with
    request := { p.request with destPort := p.request.destPort.set p.read.toNat b }
    stores := p.stores ++ [(.destPort, (p.read.toNat : Int))]
    read := p.read + 1 }
  if remainingIsDone p then (setPort p, .done) else (p, .destPort)

def requestParserFeed (p : RequestParser) (b : UInt8) : RequestParser :=
  let (p, following) :=
    match p.state with
    | .version => (p, versionState b)
    | .cmd => cmdState p b
    | .rsv => (p, .atyp)
    | .atyp => addressType p b
    | .destAddr => destAddr p b
    | .destAddrFqdn => destAddressFqdn p b
    | .destPort => destPort p b
    | .done => (p, .done)
    | .errorUnsupportedVersion => (p, .errorUnsupportedVersion)
    | .errorUnsupportedCmd => (p, .errorUnsupportedCmd)
    | .errorUnsupportedType => (p, .errorUnsupportedType)
    | .error => (p, .error)
  { p with state := following }

def requestIsDone (state : RequestState) (error : Bool) : Bool :=
  decide (state = .done) && !error

/-- `*error` stays as it was: no branch of the request parser sets it. -/
def requestConsume (b : Buffer) (p : RequestParser) (error : Bool) :
    Result (Buffer × RequestParser) :=
  drain (fun p byte => .ok (requestParserFeed p byte))
    (fun p => requestIsDone p.state error) (b.write - b.read) b p

/-! ## The fields a finished parser is read through -/

def Request.bytesAt (r : Request) (offset : Int) (n : Nat) : List UInt8 :=
  (List.range n).map fun (i : Nat) => r.memory (offset + i)

def Request.sinPort (r : Request) : List UInt8 := r.bytesAt 2 2
def Request.sinAddr (r : Request) : List UInt8 := r.bytesAt 4 4
def Request.sin6Addr (r : Request) : List UInt8 := r.bytesAt 8 16
def Request.host (r : Request) : List UInt8 := r.bytesAt 0 r.fqdnSize

end SocksProxy
