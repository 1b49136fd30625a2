import SocksProxy.Accounting
import SocksProxy.Credentials
import SocksProxy.Methods

/-!
# The gate before the request

A client is let on by the method it was asked for, or by its credentials. What it
sent, and what was looked up, is all in the calls of its record, so the invariant of
the negotiation reads them off there, stage by stage.
-/

namespace SocksProxy

open Lib

/-- The methods that `hello_read_init` copied. -/
def methodsCopied (calls : List Call) : List UInt8 :=
  calls.filterMap fun
    | .helloReadInit method => some method
    | _ => none

def Socks5.received (c : Socks5) : List UInt8 := receivedFrom c.clientFd c.calls

/-- The client sent its greeting, with these methods, and then `rest`. -/
def Socks5.Greeted (c : Socks5) (isSocks : Bool) (methods rest : List UInt8) : Prop :=
  ∃ n : UInt8, n.toNat = methods.length ∧
    c.received = helloVersion isSocks :: n :: (methods ++ rest)

/-- `hello_read_init` copied 0x00, and the client listed it. -/
def Socks5.Unguarded (c : Socks5) : Prop :=
  methodsCopied c.calls = [methodNoAuthenticationRequired] ∧
    ∃ methods rest, c.Greeted true methods rest ∧ methodNoAuthenticationRequired ∈ methods

/-- The client sent its whole username/password message, and the lookup of its two strings
returned 0x00. -/
def Socks5.LoggedIn (c : Socks5) (isSocks : Bool) : Prop :=
  ∃ (methods username password rest : List UInt8) (n m : UInt8),
    n.toNat = username.length ∧ m.toNat = password.length ∧
    c.Greeted isSocks methods
      (userpassMethodVersion :: n :: (username ++ m :: (password ++ rest))) ∧
    checkCall isSocks (some (username ++ [0])) (some (password ++ [0])) 0x00 ∈ c.calls

/-- The client may go on to its request. -/
def Socks5.Admitted (c : Socks5) (isSocks : Bool) : Prop :=
  isSocks = true ∧ c.Unguarded ∨ c.LoggedIn isSocks

/-- The states from the request on, up to the end of the connection. -/
def Session.Requests (isSocks : Bool) (s : Session) : Prop :=
  if isSocks then
    ∃ state ∈ [SocksV5State.requestRead, .requestResolv, .requestConnecting, .requestWrite, .copy],
      s.stm.current = some state.num
  else
    ∃ state ∈ [MngState.requestReadIndex, .requestRead, .requestWrite],
      s.stm.current = some state.num

/-- The parser of the greeting has been fed `fed`, and goes on. -/
def Socks5.Greets (c : Socks5) (isSocks : Bool) (d : HelloSt) (p : HelloParser) : Prop :=
  ∃ method fed, methodsCopied c.calls = [method] ∧ (isSocks = false → method = mngAuthMethod) ∧
    feedUntil (fun p byte => .ok (helloParserFeed p byte)) (fun p => helloIsDone p.1.state)
        (helloParserInit ⟨helloVersion isSocks, method, .version, 0⟩, 0xFF) fed =
      .ok ((p, d.method), []) ∧
    helloIsDone p.state = false ∧ c.received = fed ++ bufferReadPtr c.readBuffer

/-- What each state of the negotiation knows of its client. -/
def Session.Gated (isSocks : Bool) (s : Session) : Prop :=
  s.conn.isSocks = isSocks ∧
    match s.stm.current with
    | none => s.conn.calls = [] ∧ bufferReadPtr s.conn.readBuffer = []
    | some 0 => ∃ d, s.conn.client = .hello d ∧ ∀ p, d.parser = .live p → s.conn.Greets isSocks d p
    | some 1 => ∃ d, s.conn.client = .hello d ∧
        (d.method = methodNoAuthenticationRequired → isSocks = true ∧ s.conn.Unguarded) ∧
        ∃ methods, s.conn.Greeted isSocks methods (bufferReadPtr s.conn.readBuffer)
    | some 2 => ∃ methods rest, s.conn.Greeted isSocks methods rest ∧ AuthRead rest s
    | some _ => s.conn.authentication = 0x00 → s.conn.LoggedIn isSocks

section
variable {s t u : Session} {ls : List (Session × Label)} {l : Label} {isSocks : Bool} {e : Event}
  {o : Outcome} {fd : Int} {c d : Conn} {methods rest : List UInt8} {k k' : Course} {act : Act}

/-! ## What a client has sent -/

theorem received_more {more : List Call} (client : d.clientFd = c.clientFd)
    (calls : d.calls = c.calls ++ more) :
    d.received = c.received ++ receivedFrom c.clientFd more := by
  unfold Socks5.received
  rw [client, calls, receivedFrom_append]

theorem received_recv (client : d.clientFd = c.clientFd) {bytes : List UInt8}
    (calls : d.calls = c.calls ++ [.recv c.clientFd (some bytes)]) :
    d.received = c.received ++ bytes := by
  rw [received_more client calls]
  simp [receivedFrom, Call.received]

theorem received_sent {f : Int} {bytes : Option (List UInt8)} (client : d.clientFd = c.clientFd)
    (calls : d.calls = c.calls ++ [.send f bytes]) : d.received = c.received := by
  rw [received_more client calls]
  exact List.append_nil _

theorem greeted_more {more : List UInt8} (h : c.Greeted isSocks methods rest)
    (received : d.received = c.received ++ more) : d.Greeted isSocks methods (rest ++ more) := by
  obtain ⟨n, length, stream⟩ := h
  refine ⟨n, length, ?_⟩
  rw [received, stream, List.cons_append, List.cons_append, List.append_assoc]

theorem greeted_same (h : c.Greeted isSocks methods rest) (received : d.received = c.received) :
    d.Greeted isSocks methods rest := by
  obtain ⟨n, length, stream⟩ := h
  exact ⟨n, length, received.trans stream⟩

theorem loggedIn_more {more : List Call} (h : c.LoggedIn isSocks) (client : d.clientFd = c.clientFd)
    (calls : d.calls = c.calls ++ more) : d.LoggedIn isSocks := by
  obtain ⟨methods, username, password, rest, n, m, first, second, greeted, call⟩ := h
  have greeted := greeted_more greeted (received_more client calls)
  refine ⟨methods, username, password, rest ++ receivedFrom c.clientFd more, n, m, first, second,
    ?_, ?_⟩
  · simpa only [List.append_assoc, List.cons_append] using greeted
  · rw [calls]
    exact List.mem_append_left _ call

theorem unguarded_sent (h : c.Unguarded) (client : d.clientFd = c.clientFd) {f : Int}
    {bytes : Option (List UInt8)} (calls : d.calls = c.calls ++ [.send f bytes]) : d.Unguarded := by
  obtain ⟨copied, methods, rest, greeted, listed⟩ := h
  refine ⟨?_, methods, rest, greeted_same greeted (received_sent client calls), listed⟩
  rw [calls, ← copied]
  simp [methodsCopied]

/-! ## The greeting -/

/-- A parser that stopped, and refused nothing, has taken a greeting. -/
theorem greeting_taken {p p' : HelloParser} {method : UInt8} {stream : List UInt8}
    (fed : feedUntil (fun p byte => .ok (helloParserFeed p byte)) (fun p => helloIsDone p.1.state)
      (helloParserInit p, 0xFF) stream = .ok ((p', method), rest))
    (done : helloIsDone p'.state = true) (right : p'.state ≠ .errorUnsupportedVersion) :
    ∃ (n : UInt8) (methods : List UInt8), n.toNat = methods.length ∧
      stream = p.version :: n :: (methods ++ rest) ∧
      method = selectMethod p.method 0xFF methods := by
  cases stream with
  | nil =>
    simp only [feedUntil, Except.ok.injEq, Prod.mk.injEq] at fed
    obtain ⟨⟨rfl, -⟩, -⟩ := fed
    cases done
  | cons v bytes =>
    by_cases version : v = p.version
    · subst version
      cases bytes with
      | nil =>
        simp only [feedUntil, version_fed, ok_bind, helloIsDone, Bool.false_eq_true, if_false,
          Except.ok.injEq, Prod.mk.injEq] at fed
        obtain ⟨⟨rfl, -⟩, -⟩ := fed
        cases done
      | cons n xs =>
        obtain ⟨q, ran, state⟩ := greeting_loop p n xs
        rw [ran] at fed
        simp only [Except.ok.injEq, Prod.mk.injEq] at fed
        obtain ⟨⟨rfl, rfl⟩, rfl⟩ := fed
        have whole : n.toNat ≤ xs.length := by
          by_contra short
          rw [state, if_neg short] at done
          cases done
        refine ⟨n, xs.take n.toNat, ?_, ?_, rfl⟩
        · rw [List.length_take, Nat.min_eq_left whole]
        · rw [List.take_append_drop]
    · have refused : helloParserFeed (helloParserInit p, 0xFF) v =
          ({ p with state := .errorUnsupportedVersion, remaining := 0 }, 0xFF) := by
        simp [helloParserFeed, helloParserInit, version]
      simp only [feedUntil, refused, ok_bind, helloIsDone, if_true, Except.ok.injEq,
        Prod.mk.injEq] at fed
      obtain ⟨⟨rfl, -⟩, -⟩ := fed
      exact absurd rfl right

/-- What the parser of the greeting has been fed after one more `recv`. -/
theorem greets_consumes {d : HelloSt} {p p' : HelloParser} {bytes : List UInt8} {rb : Buffer}
    {method : UInt8} {error : Bool} (h : c.Greets isSocks d p)
    (got : recvBytes o (bufferWritePtr c.readBuffer) = some bytes)
    (consumed : helloConsume (bufferFill c.readBuffer bytes) p d.method =
      .ok (rb, (p', method), error)) :
    ∃ m, methodsCopied c.calls = [m] ∧ (isSocks = false → m = mngAuthMethod) ∧
      feedUntil (fun p byte => .ok (helloParserFeed p byte)) (fun p => helloIsDone p.1.state)
          (helloParserInit ⟨helloVersion isSocks, m, .version, 0⟩, 0xFF) (c.received ++ bytes) =
        .ok ((p', method), bufferReadPtr rb) := by
  obtain ⟨m, fed, copied, mng, ran, running, stream⟩ := h
  obtain ⟨more, -⟩ := helloConsume_ok consumed
  rw [bufferFill_readPtr (recvBytes_le got)] at more
  refine ⟨m, copied, mng, ?_⟩
  rw [stream, List.append_assoc, feedUntil_append_running ran running]
  exact more

theorem selectMethod_none {m : UInt8}
    (h : selectMethod m 0xFF methods = methodNoAuthenticationRequired) :
    m = methodNoAuthenticationRequired ∧ methodNoAuthenticationRequired ∈ methods := by
  unfold selectMethod at h
  split at h
  · rename_i listed
    subst h
    exact ⟨rfl, listed⟩
  · cases h

theorem helloRead_gated (n : s.Negotiates) (g : s.Gated isSocks)
    (current : s.stm.current = some SocksV5State.helloRead.num)
    (fired : handleEvent e o s.conn.clientFd s = .ok t) (next : t.Negotiates) :
    t.Gated isSocks := by
  obtain ⟨kind, d, member, greets⟩ : s.conn.isSocks = isSocks ∧ ∃ d, s.conn.client = .hello d ∧
      ∀ p, d.parser = .live p → s.conn.Greets isSocks d p := by
    unfold Session.Gated at g
    rw [current] at g
    exact g
  obtain ⟨-, ret, mid, ran, stm, goes⟩ := helloRead_event current n.ends fired
  obtain ⟨going, goes⟩ := goes_on goes (by rw [stm]) next
  obtain ⟨d', member', talked, how⟩ := helloRead_ok ran
  obtain rfl := ClientSt.hello.inj (member.symm.trans member')
  unfold Session.Gated
  rw [stm]
  rcases how with rfl | ⟨bytes, p, rb, p', method, nonempty, got, live, consumed,
      ⟨running, rfl, rfl⟩ | ⟨done, rfl, -, wb, marshalled, rfl⟩⟩
  · exact absurd (errorState_terminal n.ends.error) going
  · obtain ⟨m, copied, mng, fed⟩ := greets_consumes (greets p live) got consumed
    have drained : bufferReadPtr rb = [] := by
      obtain ⟨_, -, -, stopped | drained⟩ := feedUntil_consumed fed
      · exact absurd (stopped.symm.trans running) (by decide)
      · exact drained
    rw [drained] at fed
    rcases goes with ⟨-, eq⟩ | ⟨ne, -⟩
    · rw [eq]
      refine ⟨kind, _, rfl, fun q live' => ?_⟩
      obtain rfl := Owned.live.inj live'
      have copied' :
          methodsCopied (s.conn.calls ++ [.recv s.conn.clientFd (some bytes)]) = [m] := by
        rw [← copied]
        simp [methodsCopied]
      refine ⟨m, _, copied', mng, fed, running, ?_⟩
      change _ = _ ++ bufferReadPtr rb
      rw [drained, List.append_nil]
      exact received_recv (c := s.conn) (d := helloFed s.conn.clientFd s.conn d bytes rb p' method)
        rfl rfl
    · exact absurd rfl ne
  · obtain ⟨m, copied, mng, fed⟩ := greets_consumes (greets p live) got consumed
    have right : p'.state ≠ .errorUnsupportedVersion := by
      obtain ⟨-, -, -, error⟩ := helloConsume_ok consumed
      rw [fill_canRead nonempty (recvBytes_le got), Bool.true_and] at error
      exact of_decide_eq_false error.symm
    obtain ⟨k, methods, length, stream, selected⟩ := greeting_taken fed done right
    rcases goes with ⟨same, -⟩ | ⟨-, entry, left, there, departed, arrived⟩
    · cases same
    · obtain rfl := helloWrite_arrival there arrived
      obtain ⟨x, parser, member', eq⟩ := helloReadClose_client departed
      obtain rfl := ClientSt.hello.inj member'
      have calls : t.conn.calls = s.conn.calls ++ [.recv s.conn.clientFd (some bytes)] := by
        rw [eq]
        rfl
      have client : t.conn.clientFd = s.conn.clientFd := by
        rw [eq]
        rfl
      have greeted : t.conn.Greeted isSocks methods (bufferReadPtr rb) :=
        ⟨k, length, (received_recv client calls).trans stream⟩
      refine ⟨?_, _, by rw [eq], fun none' => ?_, methods, ?_⟩
      · rw [eq]
        exact kind
      · obtain ⟨rfl, listed⟩ := selectMethod_none (selected.symm.trans none')
        have socks : isSocks = true := by
          cases isSocks with
          | true => rfl
          | false => exact absurd (mng rfl) (by decide)
        refine ⟨socks, ?_, methods, _, socks ▸ greeted, listed⟩
        rw [calls, ← copied]
        simp [methodsCopied]
      · have unread : t.conn.readBuffer = rb := by
          rw [eq]
          rfl
        rw [unread]
        exact greeted

theorem helloWrite_gated (n : s.Negotiates) (g : s.Gated isSocks)
    (current : s.stm.current = some SocksV5State.helloWrite.num)
    (fired : handleEvent e o s.conn.clientFd s = .ok t) (next : t.Negotiates) :
    t.Gated isSocks := by
  obtain ⟨kind, d, member, open', methods, greeted⟩ : s.conn.isSocks = isSocks ∧
      ∃ d, s.conn.client = .hello d ∧
        (d.method = methodNoAuthenticationRequired → isSocks = true ∧ s.conn.Unguarded) ∧
        ∃ methods, s.conn.Greeted isSocks methods (bufferReadPtr s.conn.readBuffer) := by
    unfold Session.Gated at g
    rw [current] at g
    exact g
  obtain ⟨-, ret, mid, ran, stm, goes⟩ := helloWrite_event current n.ends fired
  obtain ⟨going, goes⟩ := goes_on goes (by rw [stm]) next
  obtain ⟨d', member', talked, how⟩ := helloWrite_ok ran
  obtain rfl := ClientSt.hello.inj (member.symm.trans member')
  unfold Session.Gated
  rw [stm]
  rcases how with rfl | ⟨bytes, sent, ⟨more, rfl, rfl⟩ |
      ⟨flushed, ⟨-, rfl, -⟩ | ⟨not, -, ret_eq, mid_eq⟩⟩⟩
  · exact absurd (errorState_terminal n.ends.error) going
  · rcases goes with ⟨-, eq⟩ | ⟨ne, -⟩
    · rw [eq]
      refine ⟨kind, d, member, fun none' => ?_, methods,
        greeted_same greeted (received_sent rfl rfl)⟩
      obtain ⟨socks, unguarded⟩ := open' none'
      exact ⟨socks, unguarded_sent unguarded rfl rfl⟩
    · exact absurd rfl ne
  · exact absurd (doneState_terminal n.ends.done) going
  · rcases (n.methods d member).1.resolve_left not with method | method
    · -- a client without authentication has left the negotiation
      rw [method] at ret_eq
      exact absurd next.talks (beyond_not_talks ⟨ret, by rw [stm], by rw [ret_eq]; decide⟩)
    · rw [method] at ret_eq
      obtain rfl : ret = SocksV5State.userpassRead.num := ret_eq
      rcases goes with ⟨same, -⟩ | ⟨-, entry, left, there, departed, arrived⟩
      · cases same
      · obtain rfl := Except.ok.inj departed
        rw [userpassRead_arrival there] at arrived
        obtain ⟨x, eq, -⟩ := authReadInit_ok arrived
        have calls : t.conn.calls = s.conn.calls ++ [.send s.conn.clientFd (some bytes)] := by
          rw [eq, mid_eq]
          rfl
        have client : t.conn.clientFd = s.conn.clientFd := by
          rw [eq, mid_eq]
          rfl
        have unread : t.conn.readBuffer = s.conn.readBuffer := by
          rw [eq, mid_eq]
          rfl
        refine ⟨?_, methods, _, ?_, authRead_start arrived⟩
        · rw [eq, mid_eq]
          exact kind
        · rw [unread]
          exact greeted_same greeted (received_sent client calls)

/-! ## The credentials -/

/-- What a message of the three fields is made of. -/
theorem auth_parsed {version username password message : List UInt8}
    (parsed : Parsed authFields [version, username, password] message) : ∃ n m : UInt8,
    n.toNat = username.length ∧ m.toNat = password.length ∧
      message = userpassMethodVersion :: n :: (username ++ m :: password) := by
  cases parsed with
  | @one _ b _ _ _ accepted parsed =>
    obtain rfl := (checkVersion_accepts b).mp accepted
    cases parsed with
    | @counted n _ _ _ _ first parsed =>
      cases parsed with
      | @counted m _ _ _ _ second parsed =>
        cases parsed with
        | nil => exact ⟨n, m, first, second, by rw [List.append_nil]⟩

/-- `auth_read` only goes on when its parser was set up. -/
theorem authRead_fine {ret : Nat} {x : UserpassSt} (ran : authRead o fd c = .ok (ret, d))
    (member : c.client = .userpass x) (going : ret ≠ c.errorState) : x.status = .success := by
  cases status : x.status with
  | success => rfl
  | error =>
    have found := userpass_ok.mpr member
    simp only [authRead, found, ok_bind, status, if_true, Except.ok.injEq, Prod.mk.injEq] at ran
    exact absurd ran.1.symm going

/-- A parser of the message that stopped, and refused nothing, holds the strings it was sent. -/
theorem auth_spelled {p : Parser} {r : FieldReader} {fed : List UInt8}
    (traces : Traces authFields p r) (spells : Spells checkAccepts UInt8.toNat authFields fed r)
    (stopped : r.stopped = true) (right : p.current ≠ .errorRead) :
    ∃ (username password : List UInt8) (n m : UInt8),
      n.toNat = username.length ∧ m.toNat = password.length ∧
      fed = userpassMethodVersion :: n :: (username ++ m :: password) ∧
      p.resultAt 2 = .ok (some (username ++ [0])) ∧
      p.resultAt 4 = .ok (some (password ++ [0])) := by
  cases r with
  | within => cases stopped
  | refused read check todo =>
    cases traces with
    | refused current => exact absurd current right
  | between read todo =>
    cases todo with
    | cons => cases stopped
    | nil =>
      obtain ⟨-, version, username, password, rfl, second, fourth⟩ := auth_done traces
      cases spells with
      | between split message =>
        rw [List.append_nil] at split
        subst split
        obtain ⟨n, m, first, last, eq⟩ := auth_parsed message
        exact ⟨username, password, n, m, first, last, eq, second, fourth⟩

/-- A client that goes on to USERPASS_WRITE sent its whole message, and the lookup of its two
strings has returned what it is answered. -/
theorem userpassRead_looks (n : s.Negotiates) (g : s.Gated isSocks)
    (current : s.stm.current = some SocksV5State.userpassRead.num)
    (fired : handleEvent e o s.conn.clientFd s = .ok t) (next : t.Negotiates)
    (at' : t.stm.current = some SocksV5State.userpassWrite.num) :
    t.conn.isSocks = isSocks ∧
      ∃ (methods username password rest : List UInt8) (n m : UInt8),
        n.toNat = username.length ∧ m.toNat = password.length ∧
        t.conn.Greeted isSocks methods
          (userpassMethodVersion :: n :: (username ++ m :: (password ++ rest))) ∧
        checkCall isSocks (some (username ++ [0])) (some (password ++ [0])) t.conn.authentication ∈
          t.conn.calls ∧
        s.conn.looksUp (some (username ++ [0])) (some (password ++ [0])) =
          .ok t.conn.authentication := by
  obtain ⟨kind, methods, w, greeted, reads⟩ : s.conn.isSocks = isSocks ∧
      ∃ methods rest, s.conn.Greeted isSocks methods rest ∧ AuthRead rest s := by
    unfold Session.Gated at g
    rw [current] at g
    exact g
  obtain ⟨-, ret, mid, ran, stm, goes⟩ := userpassRead_event current n.ends fired
  obtain rfl : SocksV5State.userpassWrite.num = ret := by
    rw [stm] at at'
    exact (Option.some.inj at').symm
  obtain ⟨going, goes⟩ := goes_on goes (by rw [stm]) next
  obtain ⟨d, member, talked, how⟩ := authRead_ok ran
  have fine : d.status = .success := by
    refine authRead_fine ran member fun failed => going ?_
    rw [failed]
    exact errorState_terminal n.ends.error
  rcases how with failed | ⟨bytes, p, rb, p', st, nonempty, got, live, consumed,
      ⟨-, same, -⟩ | ⟨stopped, -, registered, username, password, result, userIndex, second, fourth, eq'⟩⟩
  · exact absurd (failed ▸ errorState_terminal n.ends.error) going
  · cases same
  · obtain ⟨r, fed, traces, spells, stream, state, done, -⟩ :=
      authRead_consumes reads current member fine live nonempty got consumed
    have right : p'.current ≠ .errorRead := by
      obtain ⟨-, -, -, -, error⟩ :=
        consume_ok consumed (fill_canRead nonempty (recvBytes_le got))
      exact of_decide_eq_false error.symm
    obtain ⟨name, pass, k, m, nameLength, passLength, spelled, name', pass'⟩ :=
      auth_spelled traces spells (done ▸ stopped) right
    obtain rfl := Except.ok.inj (second.symm.trans name')
    obtain rfl := Except.ok.inj (fourth.symm.trans pass')
    have whole : AuthProcessed o s.conn.clientFd s.conn p' st :=
      ⟨d, p, bytes, rb, false, member, fine, got, nonempty, live, consumed, stopped,
        interestStatus_success.mpr registered⟩
    obtain ⟨x, error, looks, processed⟩ := authRead_processes whole
    obtain ⟨⟨ret', c'⟩, process, ended⟩ := bind_eq_ok.mp (processed.symm.trans ran)
    obtain ⟨-, rfl⟩ : _ ∧ c' = mid := Prod.mk.inj (Except.ok.inj ended)
    have answer := authProcess_looks process second fourth
    rw [looks] at answer
    rcases goes with ⟨same, -⟩ | ⟨-, entry, left, there, departed, arrived⟩
    · cases same
    · obtain rfl := userpassWrite_arrival there arrived
      obtain ⟨x, parser, -, eq⟩ := authReadClose_ok departed
      rw [eq'] at eq answer
      have calls : t.conn.calls = s.conn.calls ++ [.recv s.conn.clientFd (some bytes),
          checkCall isSocks (some (name ++ [0])) (some (pass ++ [0])) result] := by
        rw [eq, ← kind]
        exact List.append_assoc _ _ _
      have client : t.conn.clientFd = s.conn.clientFd := by
        rw [eq]
        rfl
      have received : t.conn.received = s.conn.received ++ bytes := by
        rw [received_more client calls]
        cases isSocks <;> simp [receivedFrom, Call.received, checkCall]
      have answered : t.conn.authentication = result := by
        rw [eq]
        rfl
      refine ⟨by rw [eq]; exact kind, methods, name, pass, bufferReadPtr rb, k, m, nameLength,
        passLength, ?_, ?_, ?_⟩
      · have all := greeted_more greeted received
        rw [stream, spelled] at all
        simpa only [List.append_assoc, List.cons_append] using all
      · rw [calls, answered]
        simp
      · rw [answered]
        exact answer

theorem userpassRead_gated (n : s.Negotiates) (g : s.Gated isSocks)
    (current : s.stm.current = some SocksV5State.userpassRead.num)
    (fired : handleEvent e o s.conn.clientFd s = .ok t) (next : t.Negotiates) :
    t.Gated isSocks := by
  obtain ⟨kind, methods, w, greeted, reads⟩ : s.conn.isSocks = isSocks ∧
      ∃ methods rest, s.conn.Greeted isSocks methods rest ∧ AuthRead rest s := by
    unfold Session.Gated at g
    rw [current] at g
    exact g
  obtain ⟨-, ret, mid, ran, stm, goes⟩ := userpassRead_event current n.ends fired
  obtain ⟨going, goes⟩ := goes_on goes (by rw [stm]) next
  obtain ⟨d, member, talked, how⟩ := authRead_ok ran
  have fine : d.status = .success := by
    refine authRead_fine ran member fun failed => going ?_
    rw [failed]
    exact errorState_terminal n.ends.error
  unfold Session.Gated
  rw [stm]
  rcases how with rfl | ⟨bytes, p, rb, p', st, nonempty, got, live, consumed,
      ⟨running, rfl, rfl⟩ | ⟨-, rfl, -⟩⟩
  · exact absurd (errorState_terminal n.ends.error) going
  · obtain ⟨r, fed, traces, spells, stream, state, done, -⟩ :=
      authRead_consumes reads current member fine live nonempty got consumed
    rcases goes with ⟨-, eq⟩ | ⟨ne, -⟩
    · have more : t.conn.Greeted isSocks methods (w ++ bytes) := by
        rw [eq]
        exact greeted_more greeted (received_recv (c := s.conn)
          (d := authFed s.conn.clientFd s.conn d bytes rb p') rfl rfl)
      refine ⟨by rw [eq]; exact kind, methods, _, more, ?_⟩
      intro _
      rw [eq]
      exact ⟨_, rfl, fun _ => ⟨p', r, fed, rfl, traces, done ▸ running, spells, stream⟩⟩
    · exact absurd rfl ne
  · obtain ⟨kind', methods, username, password, rest, k, m, first, second, greeted, call, -⟩ :=
      userpassRead_looks n g current fired next (by rw [stm])
    refine ⟨kind', fun granted => ⟨methods, username, password, rest, k, m, first, second, greeted, ?_⟩⟩
    rwa [granted] at call

theorem userpassWrite_gated (n : s.Negotiates) (g : s.Gated isSocks)
    (current : s.stm.current = some SocksV5State.userpassWrite.num)
    (fired : handleEvent e o s.conn.clientFd s = .ok t) (next : t.Negotiates) :
    t.Gated isSocks := by
  obtain ⟨kind, granted⟩ : s.conn.isSocks = isSocks ∧
      (s.conn.authentication = 0x00 → s.conn.LoggedIn isSocks) := by
    unfold Session.Gated at g
    rw [current] at g
    exact g
  obtain ⟨-, ret, mid, ran, stm, goes⟩ := userpassWrite_event current n.ends fired
  obtain ⟨going, goes⟩ := goes_on goes (by rw [stm]) next
  obtain ⟨d, member, talked, how⟩ := authWrite_ok ran
  unfold Session.Gated
  rw [stm]
  rcases how with rfl | ⟨bytes, sent, ⟨more, rfl, rfl⟩ | ⟨-, ⟨-, rfl, -⟩ | ⟨-, -, rfl, -⟩⟩⟩
  · exact absurd (errorState_terminal n.ends.error) going
  · rcases goes with ⟨-, eq⟩ | ⟨ne, -⟩
    · rw [eq]
      exact ⟨kind, fun zero => loggedIn_more (granted zero) rfl rfl⟩
    · exact absurd rfl ne
  · exact absurd (doneState_terminal n.ends.done) going
  · exact absurd next.talks (beyond_not_talks ⟨_, by rw [stm], by decide⟩)

/-! ## Any step -/

theorem gated_framed (g : s.Gated isSocks) (f : s.conn.Framed d) :
    (⟨s.stm, d⟩ : Session).Gated isSocks := by
  have reads : ∀ {w}, AuthRead w s → AuthRead w ⟨s.stm, d⟩ := fun h => authRead_framed h f
  obtain ⟨answer, record⟩ := f.record
  rcases current : s.stm.current with _ | _ | _ | _ | n <;>
    simp only [Session.Gated, current] at g ⊢
  case some.succ.succ.zero =>
    obtain ⟨kind, methods, rest, greeted, read⟩ := g
    refine ⟨?_, methods, rest, ?_, reads read⟩
    · rw [record]
      exact kind
    · rw [record]
      exact greeted
  all_goals
    rw [record]
    exact g

theorem first_gated (g : s.Gated isSocks) (first : s.stm.current = none) {start : Conn}
    (init : helloReadInit o s.conn.clientFd s.conn = .ok start) :
    (⟨{ s.stm with current := some SocksV5State.helloRead.num }, start⟩ : Session).Gated
      isSocks := by
  simp only [Session.Gated, first] at g
  obtain ⟨kind, none', empty⟩ := g
  subst kind
  rcases helloReadInit_ok init with rfl | rfl
  · exact ⟨rfl, _, rfl, fun p live => nomatch live⟩
  · refine ⟨rfl, _, rfl, fun p live => ?_⟩
    obtain rfl := Owned.live.inj live
    refine ⟨_, [], ?_, fun mng => ?_, rfl, rfl, ?_⟩
    · change methodsCopied (s.conn.calls ++ [_]) = _
      rw [none']
      rfl
    · rw [mng]
      rfl
    · change receivedFrom _ (s.conn.calls ++ [_]) = [] ++ bufferReadPtr s.conn.readBuffer
      rw [none', empty]
      rfl

theorem gated_event (n : s.Negotiates) (g : s.Gated isSocks) (held : s.conn.Holds fd)
    (fired : handleEvent e o fd s = .ok t) (next : t.Negotiates) : t.Gated isSocks := by
  obtain rfl := negotiates_held n held
  rcases n.talks with ⟨⟨first, initial⟩ | current | current, -⟩ | ⟨current | current, -⟩
  · obtain ⟨start, init, fired⟩ := first_event first initial fired
    obtain ⟨client, n'⟩ := first_negotiates n first init
    rw [← client] at fired
    exact helloRead_gated n' (first_gated g first init) rfl fired next
  · exact helloRead_gated n g current fired next
  · exact userpassRead_gated n g current fired next
  · exact helloWrite_gated n g current fired next
  · exact userpassWrite_gated n g current fired next

/-- An event that lets the client on finds it admitted. -/
theorem admitted_event (n : s.Negotiates) (g : s.Gated isSocks) (held : s.conn.Holds fd)
    (fired : handleEvent e o fd s = .ok t) (beyond : t.Beyond) :
    Terminal isSocks (t.stm.current.getD 0) ∨ s.conn.Admitted isSocks := by
  obtain rfl := negotiates_held n held
  have kind := g.1
  rcases talks_event n.talks n.methods n.ends n.footing.method fired with
      ⟨talks, -⟩ | ⟨ret, last, terminal, current, -⟩ | ⟨-, lets, -⟩
  · exact absurd talks (beyond_not_talks beyond)
  · rw [current, ← kind]
    exact Or.inl terminal
  · refine Or.inr ?_
    rcases lets with ⟨current, ⟨d, member, none'⟩, -⟩ | ⟨current, granted, -⟩
    · simp only [Session.Gated, current] at g
      obtain ⟨-, d', member', open', -⟩ := g
      obtain rfl := ClientSt.hello.inj (member.symm.trans member')
      exact Or.inl (open' none')
    · simp only [Session.Gated, current] at g
      exact Or.inr (g.2 granted)

/-- A step of the negotiation keeps what is known, or ends the connection, or finds the client
admitted. -/
theorem gated_step (n : s.Negotiates) (g : s.Gated isSocks) (step : Guarded s l t) :
    t.Negotiates ∧ t.Gated isSocks ∨
      t.Beyond ∧ (Terminal isSocks (t.stm.current.getD 0) ∨ s.conn.Admitted isSocks) := by
  have after := negotiates_step n step
  obtain ⟨allowed, fired⟩ := step
  cases l with
  | event e fd o =>
    have held : s.conn.Holds fd := ⟨allowed.1.1.2, allowed.1.2.1⟩
    have event : ∀ {v : Session}, v.Negotiates → v.Gated isSocks → v.conn.Holds fd →
        handleEvent e o fd v = .ok t → t.Negotiates ∧ t.Gated isSocks ∨
          t.Beyond ∧ (Terminal isSocks (t.stm.current.getD 0) ∨ v.conn.Admitted isSocks) := by
      intro v n g held fired
      rcases after with next | beyond
      · exact Or.inl ⟨next, gated_event n g held fired next⟩
      · exact Or.inr ⟨beyond, admitted_event n g held fired beyond⟩
    cases e with
    | read => exact event n g held fired
    | write => exact event n g held fired
    | block =>
      have frame := framed_takeJob fd s
      exact event (v := takeJob fd s) (negotiates_framed n frame) (gated_framed g frame) held fired
  | resolved answer fd =>
    obtain rfl := Except.ok.inj fired
    have frame := framed_resolved answer (fd, s.conn.self) s
    exact Or.inl ⟨negotiates_framed n frame, gated_framed g frame⟩
  | env w =>
    obtain rfl := Except.ok.inj fired
    have frame := framed_env allowed
    exact Or.inl ⟨negotiates_framed n frame, gated_framed g frame⟩

/-! ## The run -/

theorem place_over (place : k.Place s) (terminal : Terminal true (s.stm.current.getD 0)) :
    k.phase = .done ∨ k.phase = .failed := by
  have gone : s.Over := by
    rcases place_live place with ⟨-, fits⟩ | ⟨gone, -⟩
    · cases current : s.stm.current with
      | none =>
        rw [current] at terminal
        exact absurd terminal (by decide)
      | some n =>
        rw [current] at terminal
        rcases terminal with rfl | rfl
        · exact Or.inr ⟨fits.socks, current⟩
        · exact Or.inl ⟨fits.socks, current⟩
    · exact gone
  rcases gone with at' | at'
  · have covers := place_covers place at'
    cases phase : k.phase <;> rw [phase] at covers
    case done => exact Or.inl rfl
    all_goals cases covers
  · have covers := place_covers place at'
    cases phase : k.phase <;> rw [phase] at covers
    case failed => exact Or.inr rfl
    all_goals cases covers

/-- Nothing happens to a connection that is over. -/
theorem step_over (gone : k.phase = .done ∨ k.phase = .failed) (step : k.Step act k') : k' = k := by
  cases step with
  | idle => rfl
  | request | breakDown | refuse | resolve | unresolved | noSocket | noNio | first | retry |
      retryAfter | giveUp | unanswered | established | refused | copy | close | fail =>
    rcases gone with gone | gone <;> simp_all

theorem terminal_beyond (terminal : Terminal isSocks (s.stm.current.getD 0)) : s.Beyond := by
  cases current : s.stm.current with
  | none =>
    rw [current] at terminal
    exact absurd terminal (not_terminal (by decide))
  | some n =>
    rw [current] at terminal
    have terminal : Terminal isSocks n := terminal
    refine ⟨n, current, ?_⟩
    by_contra early
    exact not_terminal (by omega) terminal

theorem terminal_step (start : JustAccepted isSocks s) (run : Run Guarded s ls t)
    (terminal : Terminal isSocks (t.stm.current.getD 0)) (step : Guarded t l u) :
    Terminal isSocks (u.stm.current.getD 0) := by
  cases isSocks with
  | true =>
    obtain ⟨k, place⟩ := run_place start run
    have gone := place_over place terminal
    obtain ⟨act, k', follows, place', -⟩ := step_advances place step
    obtain rfl := step_over gone follows
    have ended : ∀ {state}, u.In state → state = .done ∨ state = .error →
        Terminal true (u.stm.current.getD 0) := by
      rintro state ⟨-, current⟩ (rfl | rfl)
      · rw [current]
        exact Or.inr rfl
      · rw [current]
        exact Or.inl rfl
    rcases gone with phase | phase <;> simp only [Course.Place, phase] at place'
    · exact ended place'.1 (Or.inl rfl)
    · exact ended place'.1 (Or.inr rfl)
  | false =>
    have administers : t.Administers :=
      run.always (fun _ _ _ h step => administers_step h step) (accepted_administers start)
    have none' : ∀ fd, ¬ t.conn.Holds fd := by
      rcases administers.stage with ⟨-, ⟨talks, -⟩ | ⟨state, listed, ⟨-, current⟩, -⟩⟩ | ⟨-, none'⟩
      · exact absurd talks (beyond_not_talks (terminal_beyond terminal))
      · rw [current] at terminal
        refine absurd terminal (not_terminal ?_)
        cases state <;> first | decide | exact absurd listed (by decide)
      · exact none'
    obtain ⟨allowed, fired⟩ := step
    cases l with
    | event e fd o => exact absurd ⟨allowed.1.1.2, allowed.1.2.1⟩ (none' fd)
    | resolved answer fd =>
      obtain rfl := Except.ok.inj fired
      exact terminal
    | env w =>
      obtain rfl := Except.ok.inj fired
      exact terminal

theorem accepted_gated (start : JustAccepted isSocks s) : s.Gated isSocks := by
  obtain ⟨footing, interest, stm, self, clientFd, clientAddr, record⟩ := accepted_footing start
  have current : s.stm.current = none := by rw [stm]
  simp only [Session.Gated, current]
  rw [record]
  exact ⟨rfl, rfl, rfl⟩

/-- A connection is in the negotiation, or over, or was admitted in the course of its run. -/
theorem gated_run (start : JustAccepted isSocks s) (run : Run Guarded s ls t) :
    t.Negotiates ∧ t.Gated isSocks ∨
      t.Beyond ∧ (Terminal isSocks (t.stm.current.getD 0) ∨
        ∃ p ∈ ls, p.1.conn.Admitted isSocks) := by
  induction run with
  | start => exact Or.inl ⟨accepted_negotiates start, accepted_gated start⟩
  | @next ls t u l run step ih =>
    rcases ih with ⟨n, g⟩ | ⟨beyond, gone | ⟨p, member, admitted⟩⟩
    · rcases gated_step n g step with next | ⟨beyond, gone | admitted⟩
      · exact Or.inl next
      · exact Or.inr ⟨beyond, Or.inl gone⟩
      · exact Or.inr ⟨beyond, Or.inr ⟨(t, l), by simp, admitted⟩⟩
    · exact Or.inr ⟨beyond_step start run beyond step, Or.inl (terminal_step start run gone step)⟩
    · exact Or.inr ⟨beyond_step start run beyond step,
        Or.inr ⟨p, List.mem_append_left _ member, admitted⟩⟩

theorem requests_late (requests : t.Requests isSocks) :
    ∃ n, t.stm.current = some n ∧ 4 ≤ n ∧ ¬ Terminal isSocks n := by
  cases isSocks with
  | true =>
    obtain ⟨state, listed, current⟩ := requests
    refine ⟨state.num, current, ?_⟩
    simp only [List.mem_cons, List.not_mem_nil, or_false] at listed
    rcases listed with rfl | rfl | rfl | rfl | rfl <;> decide
  | false =>
    obtain ⟨state, listed, current⟩ := requests
    refine ⟨state.num, current, ?_⟩
    simp only [List.mem_cons, List.not_mem_nil, or_false] at listed
    rcases listed with rfl | rfl | rfl <;> decide

/-- A connection is past the negotiation, and not over, only if `hello_read_init` had copied 0x00
and its client listed it, or if the credentials that the client sent were accepted. -/
theorem authentication_gate (start : JustAccepted isSocks s) (run : Run Guarded s ls t)
    (requests : t.Requests isSocks) : ∃ p ∈ ls, p.1.conn.Admitted isSocks := by
  obtain ⟨m, current, late, going⟩ := requests_late requests
  rcases gated_run start run with ⟨n, -⟩ | ⟨-, gone | admitted⟩
  · exact absurd n.talks (beyond_not_talks ⟨m, current, late⟩)
  · rw [current] at gone
    exact absurd gone going
  · exact admitted

end

/-- The login of the user at the management port. -/
theorem authentication_gate_admin : ∃ s ls t, JustAccepted false s ∧ Run Guarded s ls t ∧
    t.Requests false ∧ ∃ p ∈ ls, p.1.conn.LoggedIn false := by
  obtain ⟨s, ls, t, start, run, arrived⟩ := accepted_history false firstAccept userWorld 7
    adminLogin (fun _ t => decide (t.stm.current = some MngState.requestReadIndex.num)) rfl
    (by decide) userWorld_ready (by decide +kernel)
  have requests : t.Requests false := ⟨.requestReadIndex, by decide, of_decide_eq_true arrived⟩
  obtain ⟨p, member, ⟨socks, -⟩ | loggedIn⟩ := authentication_gate start run requests
  · cases socks
  · exact ⟨s, ls, t, start, run, requests, p, member, loggedIn⟩

end SocksProxy
