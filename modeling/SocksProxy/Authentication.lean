import SocksProxy.Session

/-!
# authentication.c: the username/password stage
-/

namespace SocksProxy

open Lib

def userpassMethodVersion : UInt8 := 0x01
def versionError : UInt8 := 32

def checkVersion : Check := fun ptr size =>
  if size ≠ 1 ∨ ptr.getD 0 0 ≠ userpassMethodVersion then some versionError else none

/-- A fixed field of one byte. -/
def oneByte (check : Option Check) : ParserSubstate := ⟨.longRead, some [0, 0], check, 1, 1⟩

/-- A length byte; only its state is set. -/
def lengthByte : ParserSubstate := ⟨.readN, none, none, 0, 0⟩

/-- A field whose length byte comes before it. -/
def announced : ParserSubstate := ⟨.longRead, none, none, 0, 0⟩

def authSubstates : List ParserSubstate :=
  [oneByte (some checkVersion), lengthByte, announced, lengthByte, announced]

def authReadInit (o : Outcome) (_fd : Int) (c : Conn) : Result Conn := do
  let parser ← allocParser o.malloc authSubstates
  .ok { c with client := .userpass ⟨parser, if cellReady parser then .success else .error⟩ }

/-- The block of the substate at `i`. -/
def Parser.resultAt (p : Parser) (i : Nat) : Result (Option (List UInt8)) :=
  match p.states[i]? with
  | some s => .ok s.result
  | none => .error .outOfBounds

def authProcess (parser : Parser) (c : Conn) : Result (Nat × Conn) := do
  let username ← parser.resultAt 2
  let password ← parser.resultAt 4
  let metrics := { c.metrics with historicAuthAttempts := c.metrics.historicAuthAttempts + 1 }
  if c.isSocks then
    let r ← checkCredentials c.heap c.users username password
    let c := { c with
      authentication := r.1, userIndex := r.2.getD c.userIndex, metrics := metrics }
    .ok (SocksV5State.userpassWrite.num, c.log (.checkCredentials username password r.1))
  else
    let r ← checkMngCredentials c.heap c.admins username password
    let c := { c with authentication := r, metrics := metrics }
    .ok (SocksV5State.userpassWrite.num, c.log (.checkMngCredentials username password r))

def authRead (o : Outcome) (fd : Int) (c : Conn) : Result (Nat × Conn) := do
  let d ← c.userpass
  if d.status = .error then .ok (c.errorState, c)
  else
    match recvBytes o (bufferWritePtr c.readBuffer) with
    | none => .ok (c.errorState, c.log (.recv fd none))
    | some [] => .ok (c.errorState, c.log (.recv fd (some [])))
    | some (b :: bytes) =>
      let parser ← cellParser d.parser
      let r ← consume (bufferFill c.readBuffer (b :: bytes)) parser
      let error := r.2.2.2
      let c := { c with
        readBuffer := r.1, client := .userpass { d with parser := .live (.ready r.2.1) } }
      let c := c.log (.recv fd (some (b :: bytes)))
      if isDone r.2.2.1 then
        if c.interestStatus fd opWrite = .success then
          let r ← authProcess r.2.1 (c.setInterest fd opWrite)
          .ok (if error then c.errorState else r.1, r.2)
        else .ok (c.errorState, c)
      else .ok (if error then c.errorState else SocksV5State.userpassRead.num, c)

/-- A reply that does not fit is dropped. -/
def authReply (b : Buffer) (result : UInt8) : Buffer :=
  if h : 2 ≤ bufferWritePtr b then bufferPut b [userpassMethodVersion, result] h else b

def authReadClose (_fd : Int) (c : Conn) : Result Conn := do
  let d ← c.userpass
  let parser ← parserClose d.parser
  .ok { c with client := .userpass { d with parser := parser } }

def authWriteInit (_fd : Int) (c : Conn) : Result Conn := do
  let _ ← c.userpass
  .ok c

def authWriteClose (_fd : Int) (c : Conn) : Result Conn := .ok c

def authWrite (o : Outcome) (fd : Int) (c : Conn) : Result (Nat × Conn) := do
  let _ ← c.userpass
  let c := { c with writeBuffer := authReply c.writeBuffer c.authentication }
  match sentBytes o c.writeBuffer with
  | none => .ok (c.errorState, c.log (.send fd none))
  | some bytes =>
    let c := { c with writeBuffer := bufferTake c.writeBuffer bytes.length }
    let c := c.log (.send fd (some bytes))
    if bufferCanRead c.writeBuffer then .ok (SocksV5State.userpassWrite.num, c)
    else if c.authentication ≠ 0x00 then .ok (c.doneState, c)
    else if c.interestStatus fd opRead = .success then
      .ok (SocksV5State.requestRead.num, c.setInterest fd opRead)
    else .ok (c.errorState, c)

/-! ## What the handlers do -/

theorem userpass_ok {c : Socks5} {d : UserpassSt} :
    c.userpass = .ok d ↔ c.client = .userpass d := by
  unfold Socks5.userpass
  cases c.client <;> simp

theorem cellParser_ok {cell : Owned ParserCell} {p : Parser} :
    cellParser cell = .ok p ↔ cell = .live (.ready p) := by
  unfold cellParser
  split <;> simp_all

section
variable {o : Outcome} {fd : Int} {c c' : Conn} {ret : Nat}

/-- The parser that `auth_read_init` sets up. -/
def authParser : Parser := parserOf authSubstates (oneByte (some checkVersion))

theorem authReadInit_ok (h : authReadInit o fd c = .ok c') :
    ∃ d, c' = { c with client := .userpass d } ∧
      (d.status = .error ∨ d.status = .success ∧ d.parser = .live (.ready authParser)) := by
  simp only [authReadInit] at h
  obtain ⟨cell, made, h⟩ := bind_eq_ok.mp h
  refine ⟨_, (Except.ok.inj h).symm, ?_⟩
  rcases allocParser_ok made with failed | ⟨first, found, rfl⟩
  · exact Or.inl (by simp [failed])
  · obtain rfl : oneByte (some checkVersion) = first := Option.some.inj found
    exact Or.inr ⟨rfl, rfl⟩

/-- The record after `recv` gave `bytes`, with what the parser left. -/
def authFed (fd : Int) (c : Conn) (d : UserpassSt) (bytes : List UInt8) (rb : Buffer)
    (p : Parser) : Conn :=
  { c with readBuffer := rb, client := .userpass { d with parser := .live (.ready p) } }.log
    (.recv fd (some bytes))

theorem authFed_talked (d : UserpassSt) (bytes : List UInt8) (rb : Buffer) (p : Parser) :
    c.Talked fd (authFed fd c d bytes rb p) :=
  ⟨⟨rfl, rfl, rfl, rfl, rfl, rfl, rfl, rfl⟩, .refl _ _, rfl, rfl, rfl,
    ⟨[_], rfl, by simp [Call.Negotiates]⟩, rfl, id⟩

/-- The call of `auth_process` that looks the credentials up. -/
def checkCall (isSocks : Bool) (username password : Option (List UInt8)) (result : UInt8) : Call :=
  if isSocks then .checkCredentials username password result
  else .checkMngCredentials username password result

/-- What the lookup of `auth_process` returns. -/
def Conn.looksUp (c : Conn) (username password : Option (List UInt8)) : Result UInt8 :=
  if c.isSocks then checkCredentials c.heap c.users username password >>= fun r => .ok r.1
  else checkMngCredentials c.heap c.admins username password

/-- The record after the credentials were looked up with `result`. -/
def Conn.checked (c : Conn) (username password : Option (List UInt8)) (result : UInt8)
    (userIndex : Nat) : Conn :=
  { c with
    authentication := result
    userIndex := userIndex
    metrics := { c.metrics with historicAuthAttempts := c.metrics.historicAuthAttempts + 1 } }.log
    (checkCall c.isSocks username password result)

theorem checked_talked (username password : Option (List UInt8)) (result : UInt8)
    (userIndex : Nat) : c.Talked fd (c.checked username password result userIndex) := by
  refine ⟨⟨rfl, rfl, rfl, rfl, rfl, rfl, rfl, rfl⟩, .refl _ _, rfl, rfl, rfl, ⟨[_], rfl, ?_⟩, rfl, id⟩
  intro call member
  rw [List.mem_singleton.mp member, checkCall]
  split <;> exact trivial

theorem authProcess_ok {p : Parser} (h : authProcess p c = .ok (ret, c')) :
    ret = SocksV5State.userpassWrite.num ∧ ∃ username password result userIndex,
      p.resultAt 2 = .ok username ∧ p.resultAt 4 = .ok password ∧
      c' = c.checked username password result userIndex := by
  simp only [authProcess] at h
  obtain ⟨username, second, h⟩ := bind_eq_ok.mp h
  obtain ⟨password, fourth, h⟩ := bind_eq_ok.mp h
  split at h
  · rename_i socks
    obtain ⟨r, -, h⟩ := bind_eq_ok.mp h
    simp only [Except.ok.injEq, Prod.mk.injEq] at h
    obtain ⟨rfl, rfl⟩ := h
    refine ⟨rfl, username, password, r.1, r.2.getD c.userIndex, second, fourth, ?_⟩
    simp [Conn.checked, checkCall, socks]
  · rename_i mng
    obtain ⟨r, -, h⟩ := bind_eq_ok.mp h
    simp only [Except.ok.injEq, Prod.mk.injEq] at h
    obtain ⟨rfl, rfl⟩ := h
    refine ⟨rfl, username, password, r, c.userIndex, second, fourth, ?_⟩
    simp [Conn.checked, checkCall, mng]

theorem authProcess_looks {p : Parser} {username password : Option (List UInt8)}
    (h : authProcess p c = .ok (ret, c')) (first : p.resultAt 2 = .ok username)
    (second : p.resultAt 4 = .ok password) : c.looksUp username password = .ok c'.authentication := by
  simp only [authProcess, first, second, ok_bind] at h
  unfold Conn.looksUp
  split at h
  · rename_i socks
    obtain ⟨r, checked, h⟩ := bind_eq_ok.mp h
    obtain ⟨-, rfl⟩ := Prod.mk.inj (Except.ok.inj h)
    rw [if_pos socks, checked]
    rfl
  · rename_i mng
    obtain ⟨r, checked, h⟩ := bind_eq_ok.mp h
    obtain ⟨-, rfl⟩ := Prod.mk.inj (Except.ok.inj h)
    rw [if_neg mng, checked]
    rfl

theorem fill_canRead {b : Buffer} {bytes : List UInt8} (nonempty : bytes ≠ [])
    (room : bytes.length ≤ bufferWritePtr b) : bufferCanRead (bufferFill b bytes) = true := by
  rw [bufferCanRead_iff, bufferFill_readPtr room]
  simp [nonempty]

/-- `auth_read` fails, waits for more, or looks the credentials up. -/
theorem authRead_ok (h : authRead o fd c = .ok (ret, c')) :
    ∃ d, c.client = .userpass d ∧ c.Talked fd c' ∧
      (ret = c.errorState ∨ ∃ bytes p rb p' st, bytes ≠ [] ∧
        recvBytes o (bufferWritePtr c.readBuffer) = some bytes ∧ d.parser = .live (.ready p) ∧
        consume (bufferFill c.readBuffer bytes) p = .ok (rb, p', st, false) ∧
        (isDone st = false ∧ ret = SocksV5State.userpassRead.num ∧
            c' = authFed fd c d bytes rb p' ∨
          isDone st = true ∧ ret = SocksV5State.userpassWrite.num ∧ c.sel.Registered fd ∧
            ∃ username password result userIndex,
              p'.resultAt 2 = .ok username ∧ p'.resultAt 4 = .ok password ∧
              c' = ((authFed fd c d bytes rb p').setInterest fd opWrite).checked username password
                result userIndex)) := by
  simp only [authRead] at h
  obtain ⟨d, member, h⟩ := bind_eq_ok.mp h
  refine ⟨d, userpass_ok.mp member, ?_⟩
  split at h
  · simp only [Except.ok.injEq, Prod.mk.injEq] at h
    obtain ⟨rfl, rfl⟩ := h
    exact ⟨.refl _ _, Or.inl rfl⟩
  · split at h
    · simp only [Except.ok.injEq, Prod.mk.injEq] at h
      obtain ⟨rfl, rfl⟩ := h
      exact ⟨talked_log _ _ trivial, Or.inl rfl⟩
    · simp only [Except.ok.injEq, Prod.mk.injEq] at h
      obtain ⟨rfl, rfl⟩ := h
      exact ⟨talked_log _ _ trivial, Or.inl rfl⟩
    · rename_i b bytes got
      obtain ⟨p, live, h⟩ := bind_eq_ok.mp h
      obtain ⟨⟨rb, p', st, error⟩, consumed, h⟩ := bind_eq_ok.mp h
      have live := cellParser_ok.mp live
      have fed : c.Talked fd (authFed fd c d (b :: bytes) rb p') := authFed_talked _ _ _ _
      have tuned := fed.trans (talked_setInterest _ fd opWrite)
      split at h
      · rename_i done
        split at h
        · rename_i accepted
          have registered : c.sel.Registered fd := interestStatus_success.mp accepted
          obtain ⟨⟨r, last⟩, processed, h⟩ := bind_eq_ok.mp h
          obtain ⟨rfl, username, password, result, userIndex, second, fourth, rfl⟩ :=
            authProcess_ok processed
          simp only [Except.ok.injEq, Prod.mk.injEq] at h
          obtain ⟨rfl, rfl⟩ := h
          refine ⟨tuned.trans (checked_talked _ _ _ _), ?_⟩
          cases error with
          | true => exact Or.inl rfl
          | false =>
            exact Or.inr ⟨b :: bytes, p, rb, p', st, by simp, got, live, consumed,
              Or.inr ⟨done, rfl, registered, username, password, result, userIndex, second, fourth,
                rfl⟩⟩
        · simp only [Except.ok.injEq, Prod.mk.injEq] at h
          obtain ⟨rfl, rfl⟩ := h
          exact ⟨fed, Or.inl rfl⟩
      · rename_i going
        simp only [Except.ok.injEq, Prod.mk.injEq] at h
        obtain ⟨rfl, rfl⟩ := h
        refine ⟨fed, ?_⟩
        cases error with
        | true => exact Or.inl rfl
        | false =>
          exact Or.inr ⟨b :: bytes, p, rb, p', st, by simp, got, live, consumed,
            Or.inl ⟨by simpa using going, rfl, rfl⟩⟩

theorem authReadClose_ok (h : authReadClose fd c = .ok c') :
    ∃ d parser, c.client = .userpass d ∧
      c' = { c with client := .userpass { d with parser := parser } } := by
  simp only [authReadClose] at h
  obtain ⟨d, member, h⟩ := bind_eq_ok.mp h
  obtain ⟨parser, -, h⟩ := bind_eq_ok.mp h
  exact ⟨d, parser, userpass_ok.mp member, (Except.ok.inj h).symm⟩

/-- The answer to the credentials is queued once more at every event of USERPASS_WRITE. -/
def Conn.replied (c : Conn) : Conn := { c with writeBuffer := authReply c.writeBuffer c.authentication }

theorem replied_talked : c.Talked fd c.replied := by
  have limit : (authReply c.writeBuffer c.authentication).limit = c.writeBuffer.limit := by
    unfold authReply
    split <;> rfl
  refine talked_writeBuffer c fd limit fun rewound => ?_
  unfold authReply
  split
  · exact bufferPut_rewound _ rewound
  · exact rewound

/-- `auth_write` fails, has more to send, gives up, or goes on to the request. -/
theorem authWrite_ok (h : authWrite o fd c = .ok (ret, c')) :
    ∃ d, c.client = .userpass d ∧ c.Talked fd c' ∧
      (ret = c.errorState ∨ ∃ bytes, sentBytes o c.replied.writeBuffer = some bytes ∧
        (bufferCanRead (c.replied.sentOff fd bytes).writeBuffer = true ∧
            ret = SocksV5State.userpassWrite.num ∧ c' = c.replied.sentOff fd bytes ∨
          bufferCanRead (c.replied.sentOff fd bytes).writeBuffer = false ∧
            (c.authentication ≠ 0x00 ∧ ret = c.doneState ∧ c' = c.replied.sentOff fd bytes ∨
              c.authentication = 0x00 ∧ c.sel.Registered fd ∧
                ret = SocksV5State.requestRead.num ∧
                c' = (c.replied.sentOff fd bytes).setInterest fd opRead))) := by
  simp only [authWrite] at h
  obtain ⟨d, member, h⟩ := bind_eq_ok.mp h
  have reply : c.Talked fd c.replied := replied_talked
  refine ⟨d, userpass_ok.mp member, ?_⟩
  split at h
  · simp only [Except.ok.injEq, Prod.mk.injEq] at h
    obtain ⟨rfl, rfl⟩ := h
    exact ⟨reply.trans (talked_log _ _ trivial), Or.inl rfl⟩
  · rename_i bytes sent
    have off := reply.trans (talked_sentOff c.replied fd bytes)
    split at h
    · rename_i more
      simp only [Except.ok.injEq, Prod.mk.injEq] at h
      obtain ⟨rfl, rfl⟩ := h
      exact ⟨off, Or.inr ⟨bytes, sent, Or.inl ⟨more, rfl, rfl⟩⟩⟩
    · rename_i flushed
      have flushed : bufferCanRead (c.replied.sentOff fd bytes).writeBuffer = false :=
        Bool.eq_false_iff.mpr flushed
      split at h
      · rename_i denied
        simp only [Except.ok.injEq, Prod.mk.injEq] at h
        obtain ⟨rfl, rfl⟩ := h
        exact ⟨off, Or.inr ⟨bytes, sent, Or.inr ⟨flushed, Or.inl ⟨denied, rfl, rfl⟩⟩⟩⟩
      · rename_i granted
        have granted : c.authentication = 0x00 := not_not.mp granted
        split at h
        · rename_i accepted
          have registered : c.sel.Registered fd := interestStatus_success.mp accepted
          simp only [Except.ok.injEq, Prod.mk.injEq] at h
          obtain ⟨rfl, rfl⟩ := h
          exact ⟨off.trans (talked_setInterest _ fd opRead),
            Or.inr ⟨bytes, sent, Or.inr ⟨flushed, Or.inr ⟨granted, registered, rfl, rfl⟩⟩⟩⟩
        · simp only [Except.ok.injEq, Prod.mk.injEq] at h
          obtain ⟨rfl, rfl⟩ := h
          exact ⟨off, Or.inl rfl⟩

end

end SocksProxy
