import SocksProxy.Boot
import SocksProxy.Handshake

/-!
# The answers of the negotiation

HELLO_WRITE and USERPASS_WRITE each send two bytes. The first pair is queued once,
by the read handler; the second is queued again at every event of its stage, so it
goes out once only when one `send` takes all that is offered.
-/

namespace SocksProxy

open Lib

/-- The bytes that the client has when the stage is left: `[version, method]`, then
`[0x01, authentication]`. -/
def Session.handshake (s : Session) : List UInt8 :=
  if s.stm.current = some SocksV5State.helloWrite.num then
    match s.conn.client with
    | .hello d => [helloVersion s.conn.isSocks, d.method]
    | _ => []
  else if s.stm.current = some SocksV5State.userpassRead.num then
    [helloVersion s.conn.isSocks, methodUsernamePassword]
  else if s.stm.current = some SocksV5State.userpassWrite.num then
    [helloVersion s.conn.isSocks, methodUsernamePassword, userpassMethodVersion, s.conn.authentication]
  else []

/-- The two stages that answer. -/
def Session.Answers (s : Session) : Prop :=
  s.stm.current = some SocksV5State.helloWrite.num ∨
    s.stm.current = some SocksV5State.userpassWrite.num

/-- A step in which `send`, if it is called, accepts at least a byte. -/
def SendsSome (l : Label) : Prop := ∀ e fd o, l = .event e fd o → ∃ n, o.send = some n ∧ 0 < n

/-- The answers reach the client once and in order. -/
structure AnsweredOnce (t : Session) : Prop where
  ordered : t.Answers ∨ t.stm.current = some SocksV5State.userpassRead.num →
    sentTo t.conn.clientFd t.conn.calls <+: t.handshake ∧
      (t.stm.current ≠ some SocksV5State.helloWrite.num →
        [helloVersion t.conn.isSocks, methodUsernamePassword] <+: sentTo t.conn.clientFd t.conn.calls)
  leaves : ∀ l u, t.Answers → SendsSome l → Guarded t l u → u.stm.current ≠ t.stm.current →
    sentTo t.conn.clientFd u.conn.calls = t.handshake

/-- In USERPASS_WRITE `send` takes all that it is offered. -/
def SendsWhole (s : Session) (l : Label) : Prop :=
  ∀ e fd o bytes, l = .event e fd o → s.stm.current = some SocksV5State.userpassWrite.num →
    sentBytes o s.conn.replied.writeBuffer = some bytes →
      bytes = bufferReadPtr s.conn.replied.writeBuffer

/-! ## What is queued and what was sent -/

/-- What was sent in each state of the negotiation, and what is still queued. -/
def Session.Queued (s : Session) : Prop :=
  match s.stm.current with
  | none | some 0 =>
    sentTo s.conn.clientFd s.conn.calls = [] ∧ bufferReadPtr s.conn.writeBuffer = []
  | some 1 => ∃ d, s.conn.client = .hello d ∧
      sentTo s.conn.clientFd s.conn.calls ++ bufferReadPtr s.conn.writeBuffer =
        [helloVersion s.conn.isSocks, d.method] ∧ bufferReadPtr s.conn.writeBuffer ≠ []
  | some _ => sentTo s.conn.clientFd s.conn.calls =
        [helloVersion s.conn.isSocks, methodUsernamePassword] ∧ bufferReadPtr s.conn.writeBuffer = []

section
variable {s t u : Session} {ls : List (Session × Label)} {l : Label} {isSocks : Bool} {e : Event}
  {o : Outcome} {fd : Int} {c d : Conn}

theorem queued_framed (h : s.Queued) (f : s.conn.Framed d) : (⟨s.stm, d⟩ : Session).Queued := by
  obtain ⟨answer, record⟩ := f.record
  unfold Session.Queued at h ⊢
  rw [record]
  exact h

theorem sentTo_recv (fd : Int) (calls : List Call) (bytes : Option (List UInt8)) (f : Int) :
    sentTo f (calls ++ [.recv fd bytes]) = sentTo f calls := by
  rw [sentTo_append]
  exact List.append_nil _

/-- A reply finds room in an empty buffer. -/
theorem authReply_empty {b : Buffer} (limit : b.limit = rawBuffSize) (rewound : b.Rewound)
    (empty : bufferReadPtr b = []) (result : UInt8) :
    bufferReadPtr (authReply b result) = [userpassMethodVersion, result] := by
  have room : 2 ≤ bufferWritePtr b := by
    rw [(rewound.room empty).2.2, limit]
    decide
  unfold authReply
  rw [dif_pos room, bufferPut_readPtr, empty]
  rfl

theorem helloReadClose_client (h : helloReadClose fd c = .ok d) :
    ∃ x parser, c.client = .hello x ∧
      d = { c with client := .hello { x with parser := parser } } := by
  obtain ⟨x, member, ⟨-, rfl⟩ | rfl⟩ := helloReadClose_ok h
  · refine ⟨x, x.parser, member, ?_⟩
    rw [← member]
  · exact ⟨x, .freed, member, rfl⟩

theorem helloRead_queued (n : s.Negotiates) (q : s.Queued)
    (current : s.stm.current = some SocksV5State.helloRead.num)
    (fired : handleEvent e o s.conn.clientFd s = .ok t) (next : t.Negotiates) : t.Queued := by
  obtain ⟨sent, empty⟩ : sentTo s.conn.clientFd s.conn.calls = [] ∧
      bufferReadPtr s.conn.writeBuffer = [] := by
    unfold Session.Queued at q
    rw [current] at q
    exact q
  obtain ⟨-, ret, mid, ran, stm, goes⟩ := helloRead_event current n.ends fired
  obtain ⟨going, goes⟩ := goes_on goes (by rw [stm]) next
  obtain ⟨d, member, talked, how⟩ := helloRead_ok ran
  unfold Session.Queued
  rw [stm]
  rcases how with rfl | ⟨bytes, p, rb, p', method, -, -, -, -,
      ⟨-, rfl, rfl⟩ | ⟨-, rfl, -, wb, marshalled, rfl⟩⟩
  · exact absurd (errorState_terminal n.ends.error) going
  · rcases goes with ⟨-, eq⟩ | ⟨ne, -⟩
    · rw [eq]
      exact ⟨(sentTo_recv _ _ _ _).trans sent, empty⟩
    · exact absurd rfl ne
  · rcases goes with ⟨same, -⟩ | ⟨-, entry, left, there, departed, arrived⟩
    · cases same
    · obtain rfl := helloWrite_arrival there arrived
      have queue : bufferReadPtr wb = [helloVersion s.conn.isSocks, method] := by
        rw [(helloMarshal_some marshalled).1, empty]
        rfl
      obtain ⟨d', parser, member', eq⟩ := helloReadClose_client departed
      obtain rfl := ClientSt.hello.inj member'
      rw [eq]
      refine ⟨_, rfl, ?_, ?_⟩
      · change sentTo _ (_ ++ [_]) ++ bufferReadPtr wb = _
        rw [sentTo_recv, queue]
        exact congrArg (· ++ _) sent
      · change bufferReadPtr wb ≠ []
        rw [queue]
        exact List.cons_ne_nil _ _

/-- What HELLO_WRITE has sent when it has nothing left to send. -/
theorem helloWrite_flushed {bytes : List UInt8} {d : HelloSt}
    (queued : sentTo c.clientFd c.calls ++ bufferReadPtr c.writeBuffer =
      [helloVersion c.isSocks, d.method]) (sent : sentBytes o c.writeBuffer = some bytes)
    (flushed : bufferCanRead (c.sentOff c.clientFd bytes).writeBuffer = false) :
    sentTo c.clientFd (c.sentOff c.clientFd bytes).calls = [helloVersion c.isSocks, d.method] := by
  have all := sentOff_bytes sent
  rw [bufferCanRead_eq_false.mp flushed, List.append_nil] at all
  exact all.trans queued

theorem helloWrite_queued (n : s.Negotiates) (q : s.Queued)
    (current : s.stm.current = some SocksV5State.helloWrite.num)
    (fired : handleEvent e o s.conn.clientFd s = .ok t) (next : t.Negotiates) : t.Queued := by
  obtain ⟨d, member, queued, -⟩ : ∃ d, s.conn.client = .hello d ∧
      sentTo s.conn.clientFd s.conn.calls ++ bufferReadPtr s.conn.writeBuffer =
        [helloVersion s.conn.isSocks, d.method] ∧ bufferReadPtr s.conn.writeBuffer ≠ [] := by
    unfold Session.Queued at q
    rw [current] at q
    exact q
  obtain ⟨-, ret, mid, ran, stm, goes⟩ := helloWrite_event current n.ends fired
  obtain ⟨going, goes⟩ := goes_on goes (by rw [stm]) next
  obtain ⟨d', member', talked, how⟩ := helloWrite_ok ran
  obtain rfl := ClientSt.hello.inj (member.symm.trans member')
  unfold Session.Queued
  rw [stm]
  rcases how with rfl | ⟨bytes, sent, ⟨more, rfl, rfl⟩ |
      ⟨flushed, ⟨-, rfl, -⟩ | ⟨not, -, ret_eq, mid_eq⟩⟩⟩
  · exact absurd (errorState_terminal n.ends.error) going
  · rcases goes with ⟨-, eq⟩ | ⟨ne, -⟩
    · rw [eq]
      exact ⟨d, member, (sentOff_bytes sent).trans queued, bufferCanRead_iff.mp more⟩
    · exact absurd rfl ne
  · exact absurd (doneState_terminal n.ends.done) going
  · have all := helloWrite_flushed queued sent flushed
    have empty := bufferCanRead_eq_false.mp flushed
    rcases (n.methods d member).1.resolve_left not with method | method
    · -- a client without authentication has left the negotiation
      rw [method] at ret_eq
      exact absurd next.talks (beyond_not_talks ⟨ret, by rw [stm], by rw [ret_eq]; decide⟩)
    · rw [method] at ret_eq all
      obtain rfl : ret = SocksV5State.userpassRead.num := ret_eq
      rcases goes with ⟨same, -⟩ | ⟨-, entry, left, there, departed, arrived⟩
      · cases same
      · obtain rfl := Except.ok.inj departed
        rw [userpassRead_arrival there] at arrived
        obtain ⟨x, eq, -⟩ := authReadInit_ok arrived
        rw [eq, mid_eq]
        exact ⟨all, empty⟩

theorem userpassRead_queued (n : s.Negotiates) (q : s.Queued)
    (current : s.stm.current = some SocksV5State.userpassRead.num)
    (fired : handleEvent e o s.conn.clientFd s = .ok t) (next : t.Negotiates) : t.Queued := by
  obtain ⟨sent, empty⟩ : sentTo s.conn.clientFd s.conn.calls =
      [helloVersion s.conn.isSocks, methodUsernamePassword] ∧
        bufferReadPtr s.conn.writeBuffer = [] := by
    unfold Session.Queued at q
    rw [current] at q
    exact q
  obtain ⟨-, ret, mid, ran, stm, goes⟩ := userpassRead_event current n.ends fired
  obtain ⟨going, goes⟩ := goes_on goes (by rw [stm]) next
  obtain ⟨d, member, talked, how⟩ := authRead_ok ran
  unfold Session.Queued
  rw [stm]
  rcases how with rfl | ⟨bytes, p, rb, p', st, -, -, -, -, ⟨-, rfl, rfl⟩ |
      ⟨-, rfl, -, username, password, result, userIndex, -, -, rfl⟩⟩
  · exact absurd (errorState_terminal n.ends.error) going
  · rcases goes with ⟨-, eq⟩ | ⟨ne, -⟩
    · rw [eq]
      exact ⟨(sentTo_recv _ _ _ _).trans sent, empty⟩
    · exact absurd rfl ne
  · rcases goes with ⟨same, -⟩ | ⟨-, entry, left, there, departed, arrived⟩
    · cases same
    · obtain ⟨d', parser, -, left_eq⟩ := authReadClose_ok departed
      rw [userpassWrite_arrival there arrived, left_eq]
      refine ⟨?_, empty⟩
      change sentTo _ (_ ++ [_] ++ [checkCall _ _ _ _]) = _
      rw [sentTo_append, sentTo_recv]
      have silent : sentTo s.conn.clientFd [checkCall s.conn.isSocks username password result] = [] := by
        unfold checkCall
        split <;> rfl
      exact (congrArg (_ ++ ·) silent).trans ((List.append_nil _).trans sent)

/-- The answer of USERPASS_WRITE is in the buffer at each of its events. -/
theorem replied_queued (n : s.Negotiates) (q : s.Queued)
    (current : s.stm.current = some SocksV5State.userpassWrite.num) :
    sentTo s.conn.clientFd s.conn.calls = [helloVersion s.conn.isSocks, methodUsernamePassword] ∧
      bufferReadPtr s.conn.replied.writeBuffer = [userpassMethodVersion, s.conn.authentication] := by
  obtain ⟨sent, empty⟩ : sentTo s.conn.clientFd s.conn.calls =
      [helloVersion s.conn.isSocks, methodUsernamePassword] ∧
        bufferReadPtr s.conn.writeBuffer = [] := by
    unfold Session.Queued at q
    rw [current] at q
    exact q
  exact ⟨sent, authReply_empty n.limit n.rewound empty _⟩

/-- With whole sends no event of USERPASS_WRITE stays in it. -/
theorem userpassWrite_leaves (n : s.Negotiates)
    (current : s.stm.current = some SocksV5State.userpassWrite.num)
    (whole : ∀ bytes, sentBytes o s.conn.replied.writeBuffer = some bytes →
      bytes = bufferReadPtr s.conn.replied.writeBuffer)
    (fired : handleEvent e o s.conn.clientFd s = .ok t) : ¬ t.Negotiates := by
  intro next
  obtain ⟨-, ret, mid, ran, stm, goes⟩ := userpassWrite_event current n.ends fired
  obtain ⟨going, -⟩ := goes_on goes (by rw [stm]) next
  obtain ⟨d, member, talked, how⟩ := authWrite_ok ran
  rcases how with rfl | ⟨bytes, sent, ⟨more, -⟩ | ⟨-, ⟨-, rfl, -⟩ | ⟨-, -, rfl, -⟩⟩⟩
  · exact going (errorState_terminal n.ends.error)
  · have left : bufferReadPtr (s.conn.replied.sentOff s.conn.clientFd bytes).writeBuffer = [] := by
      change bufferReadPtr (bufferTake _ _) = []
      rw [bufferTake_readPtr, whole bytes sent, List.drop_length]
    exact bufferCanRead_iff.mp more left
  · exact going (doneState_terminal n.ends.done)
  · exact beyond_not_talks ⟨_, by rw [stm], by decide⟩ next.talks

theorem first_queued (n : s.Negotiates) (q : s.Queued) (first : s.stm.current = none) {start : Conn}
    (init : helloReadInit o s.conn.clientFd s.conn = .ok start) :
    start.clientFd = s.conn.clientFd ∧
      (⟨{ s.stm with current := some SocksV5State.helloRead.num }, start⟩ : Session).Negotiates ∧
      (⟨{ s.stm with current := some SocksV5State.helloRead.num }, start⟩ : Session).Queued := by
  obtain ⟨client, negotiates⟩ := first_negotiates n first init
  refine ⟨client, negotiates, ?_⟩
  unfold Session.Queued at q ⊢
  rw [first] at q
  obtain ⟨sent, empty⟩ := q
  rcases helloReadInit_ok init with rfl | rfl
  · exact ⟨sent, empty⟩
  · refine ⟨?_, empty⟩
    change sentTo _ (_ ++ [_]) = []
    rw [sentTo_append]
    exact (List.append_nil _).trans sent

theorem queued_event (n : s.Negotiates) (q : s.Queued) (whole : SendsWhole s (.event e fd o))
    (held : s.conn.Holds fd) (fired : handleEvent e o fd s = .ok t) (next : t.Negotiates) :
    t.Queued := by
  obtain rfl := negotiates_held n held
  rcases n.talks with ⟨⟨first, initial⟩ | current | current, -⟩ | ⟨current | current, -⟩
  · obtain ⟨start, init, fired⟩ := first_event first initial fired
    obtain ⟨client, n', q'⟩ := first_queued n q first init
    rw [← client] at fired
    exact helloRead_queued n' q' rfl fired next
  · exact helloRead_queued n q current fired next
  · exact userpassRead_queued n q current fired next
  · exact helloWrite_queued n q current fired next
  · exact absurd next
      (userpassWrite_leaves n current (fun bytes => whole e _ o bytes rfl current) fired)

theorem queued_step (n : s.Negotiates) (q : s.Queued) (whole : SendsWhole s l)
    (step : Guarded s l t) (next : t.Negotiates) : t.Queued := by
  obtain ⟨allowed, fired⟩ := step
  cases l with
  | event e fd o =>
    have held : s.conn.Holds fd := ⟨allowed.1.1.2, allowed.1.2.1⟩
    cases e with
    | read => exact queued_event n q whole held fired next
    | write => exact queued_event n q whole held fired next
    | block =>
      have frame := framed_takeJob fd s
      refine queued_event (negotiates_framed n frame) (queued_framed q frame) ?_ held fired next
      intro e' fd' o' bytes label
      exact whole e' fd' o' bytes label
  | resolved answer fd =>
    obtain rfl := Except.ok.inj fired
    exact queued_framed q (framed_resolved answer _ s)
  | env w =>
    obtain rfl := Except.ok.inj fired
    exact queued_framed q (framed_env allowed)

/-! ## Leaving a stage -/

/-- `hello_write` when `send` takes something. -/
theorem helloWrite_sends {d : HelloSt} {bytes : List UInt8} (member : c.client = .hello d)
    (registered : c.sel.Registered fd) (sent : sentBytes o c.writeBuffer = some bytes) :
    helloWrite o fd c = .ok (
      if bufferCanRead (c.sentOff fd bytes).writeBuffer then
        (SocksV5State.helloWrite.num, c.sentOff fd bytes)
      else if d.method = methodNoAcceptableMethods then (c.doneState, c.sentOff fd bytes)
      else (helloNext d.method, (c.sentOff fd bytes).setInterest fd opRead)) := by
  have accepted : (c.sentOff fd bytes).interestStatus fd opRead = .success :=
    interestStatus_success.mpr registered
  have got := hello_ok.mpr member
  unfold Conn.sentOff at accepted ⊢
  simp only [helloWrite, got, ok_bind, sent, accepted, if_true]
  split
  · rfl
  · split <;> rfl

theorem authWrite_sends {d : UserpassSt} {bytes : List UInt8} (member : c.client = .userpass d)
    (registered : c.sel.Registered fd) (sent : sentBytes o c.replied.writeBuffer = some bytes) :
    authWrite o fd c = .ok (
      if bufferCanRead (c.replied.sentOff fd bytes).writeBuffer then
        (SocksV5State.userpassWrite.num, c.replied.sentOff fd bytes)
      else if c.authentication ≠ 0x00 then (c.doneState, c.replied.sentOff fd bytes)
      else (SocksV5State.requestRead.num, (c.replied.sentOff fd bytes).setInterest fd opRead)) := by
  have accepted : (c.replied.sentOff fd bytes).interestStatus fd opRead = .success :=
    interestStatus_success.mpr registered
  have got := userpass_ok.mpr member
  unfold Conn.sentOff Conn.replied at accepted ⊢
  unfold Conn.replied at sent
  simp only [authWrite, got, ok_bind, sent, accepted, if_true]
  split
  · rfl
  · split
    · rename_i denied
      have denied : c.authentication ≠ 0x00 := denied
      rw [if_pos denied]
      rfl
    · rename_i granted
      have granted : ¬ c.authentication ≠ 0x00 := granted
      rw [if_neg granted]

/-- Where a stage that answers goes, it sends no more. -/
theorem goes_sent {n ret : Nat} {mid last : Conn} (goes : Goes isSocks o fd n .ok mid ret last)
    (known : ret = n ∨ ret = SocksV5State.userpassRead.num ∨ ret = SocksV5State.requestRead.num ∨
      Terminal isSocks ret) (f : Int) : sentTo f last.calls = sentTo f mid.calls := by
  cases goes with
  | stays => rfl
  | ends terminal departed fin =>
    obtain rfl := Except.ok.inj departed
    obtain ⟨_, ended, record, ending⟩ := finish_record fin
    rw [record]
    change sentTo f (_ ++ ended) = _
    rw [sentTo_append, sent_ending ending, List.append_nil]
  | moves ne early there departed arrived =>
    obtain rfl := Except.ok.inj departed
    rcases known with same | rfl | rfl | terminal
    · exact absurd same ne
    · rw [userpassRead_arrival there] at arrived
      obtain ⟨x, rfl, -⟩ := authReadInit_ok arrived
      rfl
    · rw [request_arrival there] at arrived
      unfold requestArrival at arrived
      split at arrived
      · rcases requestInit_ok arrived with ⟨-, -, rfl⟩ | ⟨-, x, d, rfl, rfl | rfl⟩ <;> rfl
      · obtain ⟨x, rfl⟩ := mngRequestIndexInit_ok arrived
        rfl
    · exact absurd terminal (not_terminal early)

/-- `send` takes something of what it is offered. -/
theorem sends_bytes {b : Buffer} {n : Nat} (send : o.send = some n) :
    sentBytes o b = some ((bufferReadPtr b).take n) := by
  unfold sentBytes
  rw [send]
  rfl

theorem helloWrite_left (n : s.Negotiates) (q : s.Queued)
    (current : s.stm.current = some SocksV5State.helloWrite.num) {k : Nat} (send : o.send = some k)
    (registered : s.conn.sel.Registered s.conn.clientFd)
    (fired : handleEvent e o s.conn.clientFd s = .ok t) (left : t.stm.current ≠ s.stm.current) :
    sentTo s.conn.clientFd t.conn.calls = s.handshake := by
  obtain ⟨d, member, queued, -⟩ : ∃ d, s.conn.client = .hello d ∧
      sentTo s.conn.clientFd s.conn.calls ++ bufferReadPtr s.conn.writeBuffer =
        [helloVersion s.conn.isSocks, d.method] ∧ bufferReadPtr s.conn.writeBuffer ≠ [] := by
    unfold Session.Queued at q
    rw [current] at q
    exact q
  have shakes : s.handshake = [helloVersion s.conn.isSocks, d.method] := by
    unfold Session.handshake
    rw [if_pos current, member]
  obtain ⟨-, ret, mid, ran, stm, goes⟩ := helloWrite_event current n.ends fired
  have sent := sends_bytes (b := s.conn.writeBuffer) send
  rw [helloWrite_sends member registered sent, Except.ok.injEq] at ran
  rw [shakes]
  split at ran
  · obtain ⟨rfl, -⟩ := Prod.mk.inj ran
    exact absurd (by rw [stm, current]) left
  · rename_i flushed
    have all := helloWrite_flushed queued sent (Bool.eq_false_iff.mpr flushed)
    split at ran
    · obtain ⟨rfl, rfl⟩ := Prod.mk.inj ran
      rw [goes_sent goes (Or.inr (Or.inr (Or.inr (doneState_terminal n.ends.done))))]
      exact all
    · obtain ⟨rfl, rfl⟩ := Prod.mk.inj ran
      rw [goes_sent goes]
      · exact all
      · unfold helloNext
        split
        · exact Or.inr (Or.inl rfl)
        · split
          · exact Or.inr (Or.inr (Or.inl rfl))
          · exact Or.inl rfl

theorem userpassWrite_left (n : s.Negotiates) (q : s.Queued)
    (current : s.stm.current = some SocksV5State.userpassWrite.num) {k : Nat} (send : o.send = some k)
    (registered : s.conn.sel.Registered s.conn.clientFd)
    (fired : handleEvent e o s.conn.clientFd s = .ok t) (left : t.stm.current ≠ s.stm.current) :
    sentTo s.conn.clientFd t.conn.calls = s.handshake := by
  obtain ⟨queued, reply⟩ := replied_queued n q current
  have shakes : s.handshake = [helloVersion s.conn.isSocks, methodUsernamePassword] ++
      [userpassMethodVersion, s.conn.authentication] := by
    unfold Session.handshake
    rw [current]
    rfl
  obtain ⟨-, ret, mid, ran, stm, goes⟩ := userpassWrite_event current n.ends fired
  obtain ⟨d, member, -⟩ := authWrite_ok ran
  have sent := sends_bytes (b := s.conn.replied.writeBuffer) send
  rw [authWrite_sends member registered sent, Except.ok.injEq] at ran
  rw [shakes]
  split at ran
  · obtain ⟨rfl, -⟩ := Prod.mk.inj ran
    exact absurd (by rw [stm, current]) left
  · rename_i flushed
    have all := sentOff_bytes sent
    have client : s.conn.replied.clientFd = s.conn.clientFd := rfl
    rw [client, bufferCanRead_eq_false.mp (Bool.eq_false_iff.mpr flushed), List.append_nil] at all
    have all : sentTo s.conn.clientFd (s.conn.replied.sentOff s.conn.clientFd
        ((bufferReadPtr s.conn.replied.writeBuffer).take k)).calls =
          [helloVersion s.conn.isSocks, methodUsernamePassword] ++
            [userpassMethodVersion, s.conn.authentication] := by
      rw [all, reply]
      exact congrArg (· ++ _) queued
    split at ran
    · obtain ⟨rfl, rfl⟩ := Prod.mk.inj ran
      rw [goes_sent goes (Or.inr (Or.inr (Or.inr (doneState_terminal n.ends.done))))]
      exact all
    · obtain ⟨rfl, rfl⟩ := Prod.mk.inj ran
      rw [goes_sent goes (Or.inr (Or.inr (Or.inl rfl)))]
      exact all

/-! ## The run -/

theorem accepted_queued (start : JustAccepted isSocks s) : s.Queued := by
  obtain ⟨-, -, stm, self, clientFd, clientAddr, record⟩ := accepted_footing start
  unfold Session.Queued
  rw [stm, record]
  exact ⟨rfl, rfl⟩

theorem queued_ordered (q : s.Queued)
    (stage : s.Answers ∨ s.stm.current = some SocksV5State.userpassRead.num) :
    sentTo s.conn.clientFd s.conn.calls <+: s.handshake ∧
      (s.stm.current ≠ some SocksV5State.helloWrite.num →
        [helloVersion s.conn.isSocks, methodUsernamePassword] <+:
          sentTo s.conn.clientFd s.conn.calls) := by
  unfold Session.Queued at q
  unfold Session.handshake
  rcases stage with (current | current) | current
  · rw [current] at q
    obtain ⟨d, member, queued, -⟩ := q
    rw [if_pos current, member, current]
    exact ⟨⟨_, queued⟩, fun ne => absurd rfl ne⟩
  · rw [current] at q ⊢
    obtain ⟨sent, -⟩ := q
    rw [sent]
    exact ⟨⟨_, rfl⟩, fun _ => List.prefix_rfl⟩
  · rw [current] at q ⊢
    obtain ⟨sent, -⟩ := q
    rw [sent]
    exact ⟨List.prefix_rfl, fun _ => List.prefix_rfl⟩

theorem queued_leaves (n : t.Negotiates) (q : t.Queued) (stage : t.Answers) (sends : SendsSome l)
    (step : Guarded t l u) (left : u.stm.current ≠ t.stm.current) :
    sentTo t.conn.clientFd u.conn.calls = t.handshake := by
  obtain ⟨allowed, fired⟩ := step
  have event : ∀ {e o} {v : Session}, v.Negotiates → v.Queued → v.Answers →
      (∃ k, o.send = some k ∧ 0 < k) → handleEvent e o v.conn.clientFd v = .ok u →
      u.stm.current ≠ v.stm.current → sentTo v.conn.clientFd u.conn.calls = v.handshake := by
    rintro e o v n q (current | current) ⟨k, send, -⟩ fired left
    · exact helloWrite_left n q current send n.footing.client.registered fired left
    · exact userpassWrite_left n q current send n.footing.client.registered fired left
  cases l with
  | event e fd o =>
    have held : t.conn.Holds fd := ⟨allowed.1.1.2, allowed.1.2.1⟩
    obtain rfl := negotiates_held n held
    have some' := sends e _ o rfl
    cases e with
    | read => exact event n q stage some' fired left
    | write => exact event n q stage some' fired left
    | block =>
      have frame := framed_takeJob t.conn.clientFd t
      exact event (v := takeJob t.conn.clientFd t) (negotiates_framed n frame)
        (queued_framed q frame) stage some' fired left
  | resolved answer fd =>
    obtain rfl := Except.ok.inj fired
    exact absurd rfl left
  | env w =>
    obtain rfl := Except.ok.inj fired
    exact absurd rfl left

/-- **The negotiation answers once.** If USERPASS_WRITE never has to send its two bytes
in two pieces, the client gets each answer once and in order, on both ports. -/
theorem answered_once (start : JustAccepted isSocks s) (run : Run Guarded s ls t)
    (whole : ∀ p ∈ ls, SendsWhole p.1 p.2) : AnsweredOnce t := by
  rcases negotiation_run (C := SendsWhole) (G := Session.Queued)
      (fun n q whole step next => queued_step n q whole step next) start (accepted_queued start) run
      whole with ⟨n, q⟩ | ⟨state, current, late⟩
  · exact ⟨queued_ordered q, fun l u stage sends step left => queued_leaves n q stage sends step left⟩
  · have early : ¬ t.Answers := by
      rintro (at' | at')
      all_goals
        obtain rfl := Option.some.inj (at'.symm.trans current)
        exact absurd late (by decide)
    constructor
    · rintro (stage | at')
      · exact absurd stage early
      · obtain rfl := Option.some.inj (at'.symm.trans current)
        exact absurd late (by decide)
    · exact fun l u stage => absurd stage early

end

/-! ## The first client -/

/-- The events in which a user of the server is authenticated. -/
def userLogin : List (Event × Int × Outcome) :=
  userGreeting ++ [received userMessage, (.write, 5, .fine)]

theorem answered_once_first : ∃ s ls t, JustAccepted true s ∧ Run Guarded s ls t ∧
    t.In .requestRead ∧ sentTo 5 t.conn.calls = [0x05, 0x02, 0x01, 0x00] ∧ AnsweredOnce t := by
  have plays : (accepted true firstAccept userWorld).any (fun s =>
      decide (s.conn.self = 7) &&
        checks (fun s _ _ o => (sentBytes o s.conn.replied.writeBuffer).all fun bytes =>
          decide (bytes = bufferReadPtr s.conn.replied.writeBuffer)) s userLogin &&
        (play s userLogin).any fun t =>
          decide (t.In .requestRead ∧ sentTo 5 t.conn.calls = [0x05, 0x02, 0x01, 0x00])) = true := by
    decide +kernel
  obtain ⟨s, ls, t, start, run, tested, good⟩ :=
    accepted_played rfl (by decide) userWorld_ready plays
  obtain ⟨at', sent⟩ := of_decide_eq_true good
  refine ⟨s, ls, t, start, run, at', sent, answered_once start run fun p member => ?_⟩
  intro e fd o bytes label _ taken
  obtain ⟨e', fd', o', label', whole⟩ := tested p member
  rw [label, Label.event.injEq] at label'
  obtain ⟨rfl, rfl, rfl⟩ := label'
  rw [taken, Option.all_some] at whole
  exact of_decide_eq_true whole

/-- The second answer is sent in two pieces, and its result byte twice. -/
theorem answered_twice : ∃ s ls t, JustAccepted true s ∧ Run Guarded s ls t ∧
    t.stm.current = some SocksV5State.userpassWrite.num ∧ ¬ AnsweredOnce t := by
  have plays : (accepted true firstAccept userWorld).any (fun s =>
      decide (s.conn.self = 7) && checks (fun _ _ _ _ => true) s
          (userGreeting ++ [received userMessage, (.write, 5, { Outcome.fine with send := some 1 })]) &&
        (play s (userGreeting ++
            [received userMessage, (.write, 5, { Outcome.fine with send := some 1 })])).any fun t =>
          decide (t.stm.current = some SocksV5State.userpassWrite.num ∧ t.conn.clientFd = 5 ∧
            t.handshake = [0x05, 0x02, 0x01, 0x00]) &&
          (play t [(.write, 5, .fine)]).any fun u =>
            decide (u.stm.current = some SocksV5State.requestRead.num ∧
              sentTo 5 u.conn.calls = [0x05, 0x02, 0x01, 0x00, 0x01, 0x00])) = true := by
    decide +kernel
  obtain ⟨s, ls, t, start, run, -, good⟩ := accepted_played rfl (by decide) userWorld_ready plays
  obtain ⟨now, plays⟩ := (Bool.and_eq_true _ _).mp good
  obtain ⟨current, client, shakes⟩ := of_decide_eq_true now
  obtain ⟨u, played, after⟩ := (Option.any_eq_true _ _).mp plays
  obtain ⟨moved, sent⟩ := of_decide_eq_true after
  obtain ⟨v, step, same⟩ := play_cons played
  obtain rfl : v = u := Option.some.inj same
  refine ⟨s, ls, t, start, run, current, fun once => ?_⟩
  have some' : SendsSome (.event .write 5 .fine) := by
    rintro e fd o ⟨rfl, rfl, rfl⟩
    exact ⟨2048, rfl, by decide⟩
  have all := once.leaves _ v (Or.inr current) some' step (by rw [moved, current]; decide)
  rw [client, sent, shakes] at all
  exact absurd all (by decide)

end SocksProxy
