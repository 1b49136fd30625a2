import SocksProxy.Authentication
import SocksProxy.Hello

/-!
# mng_request.c: the management request
-/

namespace SocksProxy

open Lib

inductive MngRequestIndex
  | supportedIndexes
  | listUsers
  | historicConnections
  | concurrentConnections
  | maxConcurrentConnections
  | historicBytesTransferred
  | historicAuthAttempts
  | historicConnectionsAttempts
  | averageBytesPerRead
  | averageBytesPerWrite
  | addUser
  | deleteUser
  | disableAuth
  | disablePasswordDisectors
  deriving DecidableEq, Repr

/-- The enumerators are numbered from zero. -/
def mngRequestIndexes : List MngRequestIndex :=
  [.supportedIndexes, .listUsers, .historicConnections, .concurrentConnections,
    .maxConcurrentConnections, .historicBytesTransferred, .historicAuthAttempts,
    .historicConnectionsAttempts, .averageBytesPerRead, .averageBytesPerWrite, .addUser,
    .deleteUser, .disableAuth, .disablePasswordDisectors]

def mngIndexOf (b : UInt8) : Option MngRequestIndex := mngRequestIndexes[b.toNat]?

def checkIndex : Check := fun ptr _ =>
  match mngIndexOf (ptr.getD 0 0) with
  | some _ => none
  | none => some MngReplyStatus.indexNotSupported.code

/-! ## Marshalling -/

/-- Bytes that do not fit are dropped as a whole. -/
def marshalIfRoom (wb : Buffer) (need : Nat) (bytes : List UInt8) : Buffer :=
  if need ≤ bufferWritePtr wb then
    if h : bytes.length ≤ bufferWritePtr wb then bufferPut wb bytes h else wb
  else wb

def statusMngMarshal (wb : Buffer) (status : MngReplyStatus) : Buffer :=
  marshalIfRoom wb 1 [status.code]

/-- The conversion to `uint32_t` and its bytes in the order of the host. -/
def uint32Bytes (value : UInt64) : List UInt8 :=
  let v := value.toUInt32
  [v.toUInt8, (v >>> 8).toUInt8, (v >>> 16).toUInt8, (v >>> 24).toUInt8]

def uintMngRequestMarshall (wb : Buffer) (value : UInt64) : Buffer :=
  marshalIfRoom wb 5 (0x00 :: uint32Bytes value)

/-- Eighteen bytes are asked for, sixteen are written. -/
def supportedIndexesMngRequestMarshall (wb : Buffer) : Buffer :=
  marshalIfRoom wb 18
    [0x00, 0x0E, 0x00, 0x01, 0x02, 0x03, 0x04, 0x05, 0x06, 0x07, 0x08, 0x09, 0x0A, 0x0B, 0x0C, 0x0D]

def sizeMax : Nat := 2 ^ 64

/-- The lengths of the names of the first `n` slots, from slot `i` on. -/
def userLengths (heap : Heap) (users : UserTable) : Nat → Nat → Result (List (List UInt8))
  | 0, _ => .ok []
  | n + 1, i => do
    let (_, bytes) ← heap.load (users.slots i).name
    let name ← cString bytes
    let rest ← userLengths heap users n (i + 1)
    .ok (name :: rest)

/-- The check of the sizes, in which a length byte is not counted and which
starts at `room - 2` in `size_t`. -/
def namesFit : Nat → List (List UInt8) → Bool
  | _, [] => true
  | aux, name :: rest => if name.length > aux then false else namesFit (aux - name.length) rest

def listUsersBytes (names : List (List UInt8)) : List UInt8 :=
  [0x00, UInt8.ofNat names.length] ++
    names.flatMap fun name => UInt8.ofNat name.length :: name

/-- A reply that is written past the end of the buffer is a fault. -/
def listUsersMngRequestMarshall (wb : Buffer) (heap : Heap) (users : UserTable) :
    Result Buffer := do
  let names ← userLengths heap users users.nusers 0
  if namesFit ((bufferWritePtr wb + sizeMax - 2) % sizeMax) names then
    if h : (listUsersBytes names).length ≤ bufferWritePtr wb then
      .ok (bufferPut wb (listUsersBytes names) h)
    else .error .outOfBounds
  else .ok wb

/-! ## MNG_REQUEST_READ_INDEX -/

def indexSubstates : List ParserSubstate := [oneByte (some checkIndex)]

def mngStatusOf (parser : Owned ParserCell) : MngReplyStatus :=
  if cellReady parser then .succeeded else .serverError

/-- The index is not set here: it is written before it is first used. -/
def mngRequestIndexInit (o : Outcome) (_fd : Int) (c : Conn) : Result Conn := do
  let parser ← allocParser o.malloc indexSubstates
  .ok { c with client := .mngRequest ⟨parser, mngStatusOf parser, 0⟩ }

def metricOf (m : Metrics) : MngRequestIndex → Option UInt64
  | .historicConnections => some m.historicConnections
  | .concurrentConnections => some m.concurrentConnections
  | .maxConcurrentConnections => some m.maxConcurrentConnections
  | .historicBytesTransferred => some m.historicByteTransfer
  | .historicAuthAttempts => some m.historicAuthAttempts
  | .historicConnectionsAttempts => some m.historicConnectionsAttempts
  | .averageBytesPerRead => some m.averageBytesPerRead
  | .averageBytesPerWrite => some m.averageBytesPerWrite
  | _ => none

def processMngIndex (c : Conn) (index : UInt8) : Result (MngState × Buffer) :=
  match mngIndexOf index with
  | some .supportedIndexes =>
    .ok (.requestWrite, supportedIndexesMngRequestMarshall c.writeBuffer)
  | some .listUsers => do
    let wb ← listUsersMngRequestMarshall c.writeBuffer c.heap c.users
    .ok (.requestWrite, wb)
  | some i =>
    match metricOf c.metrics i with
    | some value => .ok (.requestWrite, uintMngRequestMarshall c.writeBuffer value)
    | none => .ok (.requestRead, c.writeBuffer)
  | none => .ok (.error, c.writeBuffer)

/-- The reply to a request that failed: it moves to MNG_REQUEST_WRITE if the
interest can be changed. -/
def mngReplyStatus (d : MngRequestSt) (status : MngReplyStatus) (fd : Int) (c : Conn) :
    Nat × Conn :=
  let c := { c with
    client := .mngRequest { d with status := status }
    writeBuffer := statusMngMarshal c.writeBuffer status }
  (if c.interestStatus fd opWrite = .success then MngState.requestWrite.num
    else MngState.error.num, c.setInterest fd opWrite)

def mngRequestIndexRead (o : Outcome) (fd : Int) (c : Conn) : Result (Nat × Conn) := do
  let d ← c.mngRequest
  if d.status ≠ .succeeded then .ok (mngReplyStatus d d.status fd c)
  else if bufferWritePtr c.readBuffer = 0 then .ok (mngReplyStatus d .serverError fd c)
  else
    -- one byte at a time, to see the index alone
    match recvBytes o 1 with
    | none => .ok (MngState.error.num, c.log (.recv fd none))
    | some [] => .ok (MngState.error.num, c.log (.recv fd (some [])))
    | some (b :: bytes) =>
      let parser ← cellParser d.parser
      let r ← consume (bufferFill c.readBuffer (b :: bytes)) parser
      let d := { d with parser := .live (.ready r.2.1) }
      let c := { c with readBuffer := r.1, client := .mngRequest d }
      let c := c.log (.recv fd (some (b :: bytes)))
      if isDone r.2.2.1 then
        if r.2.2.2 then .ok (mngReplyStatus d .indexNotSupported fd c)
        else
          let result ← r.2.1.resultAt 0
          let block ← deref result
          let index := block.getD 0 0
          let p ← processMngIndex c index
          let c := { c with client := .mngRequest { d with index := index }, writeBuffer := p.2 }
          match p.1 with
          | .requestWrite =>
            .ok (if c.interestStatus fd opWrite = .success then MngState.requestWrite.num
              else MngState.error.num, c.setInterest fd opWrite)
          | .requestRead =>
            .ok (if c.interestStatus fd opRead = .success then MngState.requestRead.num
              else MngState.error.num, c.setInterest fd opRead)
          | other => .ok (other.num, c)
      else .ok (MngState.requestReadIndex.num, c)

def mngRequestIndexClose (_fd : Int) (c : Conn) : Result Conn := do
  let d ← c.mngRequest
  let parser ← parserClose d.parser
  .ok { c with client := .mngRequest { d with parser := parser } }

/-! ## MNG_REQUEST_READ -/

def addUserSubstates : List ParserSubstate := [lengthByte, announced, lengthByte, announced]

def deleteUserSubstates : List ParserSubstate := [lengthByte, announced]

def yesNoSubstates : List ParserSubstate := [oneByte none]

/-- The parser of an index that takes parameters. -/
def mngRequestSubstates : MngRequestIndex → Option (List ParserSubstate)
  | .addUser => some addUserSubstates
  | .deleteUser => some deleteUserSubstates
  | .disableAuth | .disablePasswordDisectors => some yesNoSubstates
  | _ => none

def mngRequestInit (o : Outcome) (_fd : Int) (c : Conn) : Result Conn := do
  let d ← c.mngRequest
  match (mngIndexOf d.index).bind mngRequestSubstates with
  | none => .error .abort
  | some states =>
    let parser ← allocParser o.malloc states
    .ok { c with client := .mngRequest { d with parser := parser, status := mngStatusOf parser } }

/-- `*option` for a string of the parser. -/
def optionByte (s : Option (List UInt8)) : Result UInt8 := do
  let block ← deref s
  .ok (block.getD 0 0)

def disableAuth (option : UInt8) : UInt8 :=
  if option = 0x00 then methodUsernamePassword else methodNoAuthenticationRequired

def processMngParamsRequest (parser : Parser) (index : UInt8) (c : Conn) : Result Conn :=
  let reply (status : MngReplyStatus) (c : Conn) : Conn :=
    { c with writeBuffer := statusMngMarshal c.writeBuffer status }
  match mngIndexOf index with
  | some .addUser =>
    if c.users.nusers = maxUsers then .ok (reply .maxUsersReached c)
    else do
      let username ← parser.resultAt 1
      let password ← parser.resultAt 3
      let r ← addUser c.heap c.users username password
      .ok (reply .succeeded { c with heap := r.1, users := r.2 })
  | some .deleteUser => do
    let username ← parser.resultAt 1
    let r ← deleteUser c.heap c.users username
    .ok (reply .succeeded { c with heap := r.1, users := r.2 })
  | some .disableAuth => do
    let option ← parser.resultAt 0 >>= optionByte
    .ok (reply .succeeded { c with authMethod := disableAuth option })
  | some .disablePasswordDisectors => do
    let option ← parser.resultAt 0 >>= optionByte
    .ok (reply .succeeded { c with passwordDissectors := option })
  | _ => .ok (reply .serverError c)

def mngRequestRead (o : Outcome) (fd : Int) (c : Conn) : Result (Nat × Conn) := do
  let d ← c.mngRequest
  if d.status ≠ .succeeded then .ok (mngReplyStatus d d.status fd c)
  else
    match recvBytes o (bufferWritePtr c.readBuffer) with
    | none => .ok (MngState.error.num, c.log (.recv fd none))
    | some [] => .ok (MngState.error.num, c.log (.recv fd (some [])))
    | some (b :: bytes) =>
      let parser ← cellParser d.parser
      let r ← consume (bufferFill c.readBuffer (b :: bytes)) parser
      let d := { d with parser := .live (.ready r.2.1) }
      let c := { c with readBuffer := r.1, client := .mngRequest d }
      let c := c.log (.recv fd (some (b :: bytes)))
      if isDone r.2.2.1 then
        if c.interestStatus fd opWrite = .success then
          let c := c.setInterest fd opWrite
          if r.2.2.2 then .ok (MngState.error.num, c)
          else
            let c ← processMngParamsRequest r.2.1 d.index c
            .ok (MngState.requestWrite.num, c)
        else .ok (MngState.error.num, c)
      else .ok (MngState.requestRead.num, c)

def mngRequestClose (fd : Int) (c : Conn) : Result Conn := mngRequestIndexClose fd c

/-! ## MNG_REQUEST_WRITE -/

def mngRequestWriteInit (_fd : Int) (c : Conn) : Result Conn := do
  let _ ← c.mngRequest
  .ok c

def mngRequestWriteClose (_fd : Int) (c : Conn) : Result Conn := .ok c

def mngRequestWrite (o : Outcome) (fd : Int) (c : Conn) : Result (Nat × Conn) := do
  let _ ← c.mngRequest
  match sentBytes o c.writeBuffer with
  | none => .ok (MngState.error.num, c.log (.send fd none))
  | some bytes =>
    let c := { c with writeBuffer := bufferTake c.writeBuffer bytes.length }
    let c := c.log (.send fd (some bytes))
    .ok (if bufferCanRead c.writeBuffer then MngState.requestWrite.num else MngState.done.num, c)

end SocksProxy
