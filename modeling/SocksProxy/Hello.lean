import SocksProxy.Session

/-!
# hello.c: the method negotiation
-/

namespace SocksProxy

open Lib

def socksVersion : UInt8 := 0x05
def mngVersion : UInt8 := 0x01
def mngAuthMethod : UInt8 := 0x02
def methodNoAuthenticationRequired : UInt8 := 0x00
def methodNoAcceptableMethods : UInt8 := 0xFF
def methodUsernamePassword : UInt8 := 0x02

def helloMarshal (b : Buffer) (method version : UInt8) : Option Buffer :=
  if h : 2 ≤ bufferWritePtr b then some (bufferPut b [version, method] h) else none

def helloReadInit (o : Outcome) (_fd : Int) (c : Conn) : Result Conn :=
  if o.malloc 0 then
    let parser : HelloParser :=
      if c.isSocks then ⟨socksVersion, c.authMethod, .version, 0⟩
      else ⟨mngVersion, mngAuthMethod, .version, 0⟩
    let c := { c with client := .hello ⟨.live (helloParserInit parser), 0xFF, .success⟩ }
    .ok (c.log (.helloReadInit parser.method))
  else .ok { c with client := .hello ⟨.null, 0xFF, .error⟩ }

/-- The version a kind of connection speaks. -/
def helloVersion (isSocks : Bool) : UInt8 := if isSocks then socksVersion else mngVersion

/-- `-1`, here `none`, when the reply does not fit. -/
def helloProcess (d : HelloSt) (wb : Buffer) (version : UInt8) : Option (Nat × Buffer) :=
  (helloMarshal wb d.method version).map fun wb => (SocksV5State.helloWrite.num, wb)

def helloRead (o : Outcome) (fd : Int) (c : Conn) : Result (Nat × Conn) := do
  let d ← c.hello
  if d.status = .error then .ok (c.errorState, c)
  else
    match recvBytes o (bufferWritePtr c.readBuffer) with
    | none => .ok (c.errorState, c.log (.recv fd none))
    | some [] => .ok (c.errorState, c.log (.recv fd (some [])))
    | some (b :: bytes) =>
      let parser ← d.parser.get
      let r ← helloConsume (bufferFill c.readBuffer (b :: bytes)) parser d.method
      let d := { d with parser := .live r.2.1.1, method := r.2.1.2 }
      let error := r.2.2
      let c := { c with readBuffer := r.1, client := .hello d }
      let c := c.log (.recv fd (some (b :: bytes)))
      if helloIsDone r.2.1.1.state then
        if c.interestStatus fd opWrite = .success then
          let c := c.setInterest fd opWrite
          match helloProcess d c.writeBuffer (helloVersion c.isSocks) with
          | none => .ok (c.errorState, c)
          | some (ret, wb) =>
            .ok (if error then c.errorState else ret, { c with writeBuffer := wb })
        else .ok (c.errorState, c)
      else .ok (if error then c.errorState else SocksV5State.helloRead.num, c)

def helloReadClose (_fd : Int) (c : Conn) : Result Conn := do
  let d ← c.hello
  match d.parser with
  | .null => .ok c
  | .live _ => .ok { c with client := .hello { d with parser := .freed } }
  | .freed => .error .useAfterFree

/-- The hooks that only set the two buffer pointers again. -/
def helloWriteInit (_fd : Int) (c : Conn) : Result Conn := do
  let _ ← c.hello
  .ok c

def helloWriteClose (_fd : Int) (c : Conn) : Result Conn := .ok c

def helloWrite (o : Outcome) (fd : Int) (c : Conn) : Result (Nat × Conn) := do
  let d ← c.hello
  match sentBytes o c.writeBuffer with
  | none => .ok (c.errorState, c.log (.send fd none))
  | some bytes =>
    let c := { c with writeBuffer := bufferTake c.writeBuffer bytes.length }
    let c := c.log (.send fd (some bytes))
    if bufferCanRead c.writeBuffer then .ok (SocksV5State.helloWrite.num, c)
    else if d.method = methodNoAcceptableMethods then .ok (c.doneState, c)
    else if c.interestStatus fd opRead = .success then
      let c := c.setInterest fd opRead
      -- both tables number their first five states alike
      .ok (if d.method = methodUsernamePassword then SocksV5State.userpassRead.num
        else if d.method = methodNoAuthenticationRequired then SocksV5State.requestRead.num
        else SocksV5State.helloWrite.num, c)
    else .ok (c.errorState, c)

/-! ## What the handlers do -/

theorem hello_ok {c : Socks5} {d : HelloSt} : c.hello = .ok d ↔ c.client = .hello d := by
  unfold Socks5.hello
  cases c.client <;> simp

section
variable {o : Outcome} {fd : Int} {c c' : Conn} {ret : Nat}

/-- The parser that `hello_read_init` sets up. -/
def helloParserOf (isSocks : Bool) (authMethod : UInt8) : HelloParser :=
  ⟨helloVersion isSocks, if isSocks then authMethod else mngAuthMethod, .version, 0⟩

theorem helloReadInit_ok (h : helloReadInit o fd c = .ok c') :
    c' = { c with client := .hello ⟨.null, 0xFF, .error⟩ } ∨
      c' = { c with client := .hello ⟨.live (helloParserOf c.isSocks c.authMethod), 0xFF, .success⟩ }.log
        (.helloReadInit (helloParserOf c.isSocks c.authMethod).method) := by
  simp only [helloReadInit] at h
  split at h
  · refine Or.inr ((Except.ok.inj h).symm.trans ?_)
    unfold helloParserOf helloVersion helloParserInit
    cases c.isSocks <;> rfl
  · exact Or.inl (Except.ok.inj h).symm

/-- The record after `recv` gave `bytes`, with what the parser left. -/
def helloFed (fd : Int) (c : Conn) (d : HelloSt) (bytes : List UInt8) (rb : Buffer)
    (p : HelloParser) (method : UInt8) : Conn :=
  { c with readBuffer := rb, client := .hello { d with parser := .live p, method := method } }.log
    (.recv fd (some bytes))

theorem helloFed_talked (d : HelloSt) (bytes : List UInt8) (rb : Buffer) (p : HelloParser)
    (method : UInt8) : c.Talked fd (helloFed fd c d bytes rb p method) :=
  ⟨⟨rfl, rfl, rfl, rfl, rfl, rfl, rfl, rfl⟩, .refl _ _, rfl, rfl, rfl,
    ⟨[_], rfl, by simp [Call.Negotiates]⟩, rfl, id⟩

theorem helloMarshal_some {b wb : Buffer} {method version : UInt8}
    (h : helloMarshal b method version = some wb) :
    bufferReadPtr wb = bufferReadPtr b ++ [version, method] ∧ wb.limit = b.limit ∧
      (b.Rewound → wb.Rewound) := by
  unfold helloMarshal at h
  split at h
  · obtain rfl := Option.some.inj h
    exact ⟨bufferPut_readPtr _, bufferPut_limit _, bufferPut_rewound _⟩
  · cases h

/-- `hello_read` fails, waits for more, or answers with the method that was selected. -/
theorem helloRead_ok (h : helloRead o fd c = .ok (ret, c')) :
    ∃ d, c.client = .hello d ∧ c.Talked fd c' ∧
      (ret = c.errorState ∨ ∃ bytes p rb p' method, bytes ≠ [] ∧
        recvBytes o (bufferWritePtr c.readBuffer) = some bytes ∧ d.parser = .live p ∧
        helloConsume (bufferFill c.readBuffer bytes) p d.method = .ok (rb, (p', method), false) ∧
        (helloIsDone p'.state = false ∧ ret = SocksV5State.helloRead.num ∧
            c' = helloFed fd c d bytes rb p' method ∨
          helloIsDone p'.state = true ∧ ret = SocksV5State.helloWrite.num ∧ c.sel.Registered fd ∧
            ∃ wb, helloMarshal c.writeBuffer method (helloVersion c.isSocks) = some wb ∧
              c' = { (helloFed fd c d bytes rb p' method).setInterest fd opWrite with
                writeBuffer := wb })) := by
  simp only [helloRead] at h
  obtain ⟨d, member, h⟩ := bind_eq_ok.mp h
  refine ⟨d, hello_ok.mp member, ?_⟩
  split at h
  · simp only [Except.ok.injEq, Prod.mk.injEq] at h
    obtain ⟨rfl, rfl⟩ := h
    exact ⟨.refl _ _, Or.inl rfl⟩
  · split at h
    · simp only [Except.ok.injEq, Prod.mk.injEq] at h
      obtain ⟨rfl, rfl⟩ := h
      exact ⟨talked_log _ _ trivial, Or.inl rfl⟩
    · simp only [Except.ok.injEq, Prod.mk.injEq] at h
      obtain ⟨rfl, rfl⟩ := h
      exact ⟨talked_log _ _ trivial, Or.inl rfl⟩
    · rename_i b bytes got
      obtain ⟨p, live, h⟩ := bind_eq_ok.mp h
      obtain ⟨⟨rb, ⟨p', method⟩, error⟩, consumed, h⟩ := bind_eq_ok.mp h
      have fed : c.Talked fd (helloFed fd c d (b :: bytes) rb p' method) := helloFed_talked _ _ _ _ _
      have tuned := fed.trans (talked_setInterest _ fd opWrite)
      split at h
      · rename_i done
        split at h
        · rename_i accepted
          have registered : c.sel.Registered fd := interestStatus_success.mp accepted
          split at h
          · simp only [Except.ok.injEq, Prod.mk.injEq] at h
            obtain ⟨rfl, rfl⟩ := h
            exact ⟨tuned, Or.inl rfl⟩
          · rename_i ret' wb processed
            obtain ⟨wb', marshalled, eq⟩ := Option.map_eq_some_iff.mp processed
            obtain ⟨rfl, rfl⟩ := Prod.mk.inj eq
            simp only [Except.ok.injEq, Prod.mk.injEq] at h
            obtain ⟨rfl, rfl⟩ := h
            obtain ⟨-, limit, rewound⟩ := helloMarshal_some marshalled
            refine ⟨tuned.trans (talked_writeBuffer _ fd limit rewound), ?_⟩
            cases error with
            | true => exact Or.inl rfl
            | false =>
              exact Or.inr ⟨b :: bytes, p, rb, p', method, by simp, got, Owned.get_eq_ok.mp live,
                consumed, Or.inr ⟨done, rfl, registered, wb', marshalled, rfl⟩⟩
        · simp only [Except.ok.injEq, Prod.mk.injEq] at h
          obtain ⟨rfl, rfl⟩ := h
          exact ⟨fed, Or.inl rfl⟩
      · rename_i going
        simp only [Except.ok.injEq, Prod.mk.injEq] at h
        obtain ⟨rfl, rfl⟩ := h
        refine ⟨fed, ?_⟩
        cases error with
        | true => exact Or.inl rfl
        | false =>
          exact Or.inr ⟨b :: bytes, p, rb, p', method, by simp, got, Owned.get_eq_ok.mp live,
            consumed, Or.inl ⟨by simpa using going, rfl, rfl⟩⟩

/-- Leaving HELLO_READ frees the parser. -/
theorem helloReadClose_ok (h : helloReadClose fd c = .ok c') :
    ∃ d, c.client = .hello d ∧ (d.parser = .null ∧ c' = c ∨
      c' = { c with client := .hello { d with parser := .freed } }) := by
  simp only [helloReadClose] at h
  obtain ⟨d, member, h⟩ := bind_eq_ok.mp h
  refine ⟨d, hello_ok.mp member, ?_⟩
  split at h
  · rename_i null
    exact Or.inl ⟨null, (Except.ok.inj h).symm⟩
  · exact Or.inr (Except.ok.inj h).symm
  · cases h

/-- Where HELLO_WRITE goes with a method that is not 0xFF. -/
def helloNext (method : UInt8) : Nat :=
  if method = methodUsernamePassword then SocksV5State.userpassRead.num
  else if method = methodNoAuthenticationRequired then SocksV5State.requestRead.num
  else SocksV5State.helloWrite.num

/-- `hello_write` fails, has more to send, gives up, or goes on with the method. -/
theorem helloWrite_ok (h : helloWrite o fd c = .ok (ret, c')) :
    ∃ d, c.client = .hello d ∧ c.Talked fd c' ∧
      (ret = c.errorState ∨ ∃ bytes, sentBytes o c.writeBuffer = some bytes ∧
        (bufferCanRead (c.sentOff fd bytes).writeBuffer = true ∧ ret = SocksV5State.helloWrite.num ∧
            c' = c.sentOff fd bytes ∨
          bufferCanRead (c.sentOff fd bytes).writeBuffer = false ∧
            (d.method = methodNoAcceptableMethods ∧ ret = c.doneState ∧ c' = c.sentOff fd bytes ∨
              d.method ≠ methodNoAcceptableMethods ∧ c.sel.Registered fd ∧
                ret = helloNext d.method ∧ c' = (c.sentOff fd bytes).setInterest fd opRead))) := by
  simp only [helloWrite] at h
  obtain ⟨d, member, h⟩ := bind_eq_ok.mp h
  refine ⟨d, hello_ok.mp member, ?_⟩
  split at h
  · simp only [Except.ok.injEq, Prod.mk.injEq] at h
    obtain ⟨rfl, rfl⟩ := h
    exact ⟨talked_log _ _ trivial, Or.inl rfl⟩
  · rename_i bytes sent
    have off := talked_sentOff c fd bytes
    split at h
    · rename_i more
      simp only [Except.ok.injEq, Prod.mk.injEq] at h
      obtain ⟨rfl, rfl⟩ := h
      exact ⟨off, Or.inr ⟨bytes, sent, Or.inl ⟨more, rfl, rfl⟩⟩⟩
    · rename_i flushed
      have flushed : bufferCanRead (c.sentOff fd bytes).writeBuffer = false :=
        Bool.eq_false_iff.mpr flushed
      split at h
      · rename_i none'
        simp only [Except.ok.injEq, Prod.mk.injEq] at h
        obtain ⟨rfl, rfl⟩ := h
        exact ⟨off, Or.inr ⟨bytes, sent, Or.inr ⟨flushed, Or.inl ⟨none', rfl, rfl⟩⟩⟩⟩
      · rename_i some'
        split at h
        · rename_i accepted
          have registered : c.sel.Registered fd := interestStatus_success.mp accepted
          simp only [Except.ok.injEq, Prod.mk.injEq] at h
          obtain ⟨rfl, rfl⟩ := h
          exact ⟨off.trans (talked_setInterest _ fd opRead),
            Or.inr ⟨bytes, sent, Or.inr ⟨flushed, Or.inr ⟨some', registered, rfl, rfl⟩⟩⟩⟩
        · simp only [Except.ok.injEq, Prod.mk.injEq] at h
          obtain ⟨rfl, rfl⟩ := h
          exact ⟨off, Or.inl rfl⟩

end

end SocksProxy
