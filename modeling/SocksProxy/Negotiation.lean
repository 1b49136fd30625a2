import SocksProxy.Footing

/-!
# The negotiation

Both tables begin with the same four states, under the same numbers. An event in
one of them runs its handler, and then stays, goes on to the next stage or ends
the connection.
-/

namespace SocksProxy

open Lib

/-- The first hook past the negotiation, the same number in both tables. -/
def requestArrival (isSocks : Bool) (o : Outcome) (fd : Int) (c : Conn) : Result Conn :=
  if isSocks then requestInit o fd c else mngRequestIndexInit o fd c

section
variable {e : Event} {o : Outcome} {fd : Int} {s t : Session} {c d : Conn}

/-- An event in the state `n` of the record's table. -/
theorem table_event {n : Nat} {entry : StateDefinition Conn} (current : s.stm.current = some n)
    (there : (statesOf s.conn.isSocks o fd)[n]? = some entry)
    (h : handleEvent e o fd s = .ok t) :
    ∃ handler ret mid last, e.handler entry = some handler ∧ handler s.conn = .ok (ret, mid) ∧
      t.stm = { s.stm with current := some ret } ∧
      (ret = n ∧ last = mid ∨ ret ≠ n ∧ ∃ next left, (statesOf s.conn.isSocks o fd)[ret]? = some next ∧
        runHook entry.onDeparture mid = .ok left ∧ runHook next.onArrival left = .ok last) ∧
      (Terminal s.conn.isSocks ret ∧ finish s.conn.isSocks last = .ok t.conn ∨
        ¬ Terminal s.conn.isSocks ret ∧ t.conn = last) := by
  obtain ⟨i, d, handler, start, ret, mid, last, found, present, picked, ran, stm, moved, ended⟩ :=
    handleEvent_ok h
  obtain ⟨rfl, rfl⟩ := found_of_current found current
  obtain rfl : entry = d := Option.some.inj (there.symm.trans present)
  refine ⟨handler, ret, mid, last, picked, ran, stm, ?_, ended⟩
  rcases moved with same | ⟨ne, d', next, left, at', there', departed, arrived⟩
  · exact Or.inl same
  · obtain rfl : entry = d' := Option.some.inj (there.symm.trans at')
    exact Or.inr ⟨ne, next, left, there', departed, arrived⟩

theorem not_terminal {isSocks : Bool} {n : Nat} (early : n < 7) : ¬ Terminal isSocks n := by
  unfold Terminal
  split
  · simp only [SocksV5State.num]
    omega
  · simp only [MngState.num]
    omega

theorem terminal_ne {isSocks : Bool} {n ret : Nat} (early : n < 7) (terminal : Terminal isSocks ret) :
    ret ≠ n := by
  rintro rfl
  exact not_terminal early terminal

/-- The last two states of both tables have no hooks. -/
theorem terminal_arrival {isSocks : Bool} {ret : Nat} {entry : StateDefinition Conn}
    (terminal : Terminal isSocks ret) (there : (statesOf isSocks o fd)[ret]? = some entry) :
    runHook entry.onArrival c = .ok c := by
  unfold Terminal at terminal
  unfold statesOf at there
  cases isSocks
  · rcases terminal with rfl | rfl <;> obtain rfl := Option.some.inj there <;> rfl
  · rcases terminal with rfl | rfl <;> obtain rfl := Option.some.inj there <;> rfl

/-- The ways on from an event of the negotiation that left `mid`. -/
inductive Goes (isSocks : Bool) (o : Outcome) (fd : Int) (n : Nat)
    (departure : Conn → Result Conn) (mid : Conn) : Nat → Conn → Prop
  | stays : Goes isSocks o fd n departure mid n mid
  | moves {ret : Nat} {entry : StateDefinition Conn} {left last : Conn} : ret ≠ n → ret < 7 →
      (statesOf isSocks o fd)[ret]? = some entry → departure mid = .ok left →
      runHook entry.onArrival left = .ok last → Goes isSocks o fd n departure mid ret last
  | ends {ret : Nat} {left last : Conn} : Terminal isSocks ret → departure mid = .ok left →
      finish isSocks left = .ok last → Goes isSocks o fd n departure mid ret last

theorem goes_of_event {n ret : Nat} {entry : StateDefinition Conn} {departure : Conn → Result Conn}
    {mid last : Conn} (early : n < 7) (departs : runHook entry.onDeparture mid = departure mid)
    (known : ret < 7 ∨ Terminal s.conn.isSocks ret)
    (moved : ret = n ∧ last = mid ∨ ret ≠ n ∧ ∃ next left,
      (statesOf s.conn.isSocks o fd)[ret]? = some next ∧
        runHook entry.onDeparture mid = .ok left ∧ runHook next.onArrival left = .ok last)
    (ended : Terminal s.conn.isSocks ret ∧ finish s.conn.isSocks last = .ok t.conn ∨
      ¬ Terminal s.conn.isSocks ret ∧ t.conn = last) :
    Goes s.conn.isSocks o fd n departure mid ret t.conn := by
  rw [departs] at moved
  rcases ended with ⟨terminal, ended⟩ | ⟨going, rfl⟩
  · rcases moved with ⟨same, -⟩ | ⟨-, next, left, there, departed, arrived⟩
    · exact absurd same (terminal_ne early terminal)
    · obtain rfl : left = last :=
        Except.ok.inj ((terminal_arrival terminal there).symm.trans arrived)
      exact .ends terminal departed ended
  · rcases moved with ⟨rfl, eq⟩ | ⟨ne, next, left, there, departed, arrived⟩
    · rw [eq]
      exact .stays
    · exact .moves ne (known.resolve_right going) there departed arrived

theorem errorState_terminal
    (error : c.errorState = if c.isSocks then SocksV5State.error.num else MngState.error.num) :
    Terminal c.isSocks c.errorState := by
  unfold Terminal
  rw [error]
  split
  · exact Or.inl rfl
  · exact Or.inl rfl

theorem doneState_terminal
    (done : c.doneState = if c.isSocks then SocksV5State.done.num else MngState.done.num) :
    Terminal c.isSocks c.doneState := by
  unfold Terminal
  rw [done]
  split
  · exact Or.inr rfl
  · exact Or.inr rfl

/-- The numbers that a record returns to end its connection are those of its table. -/
structure Socks5.Ends (c : Socks5) : Prop where
  error : c.errorState = if c.isSocks then SocksV5State.error.num else MngState.error.num
  done : c.doneState = if c.isSocks then SocksV5State.done.num else MngState.done.num

theorem helloRead_event (current : s.stm.current = some SocksV5State.helloRead.num)
    (ends : s.conn.Ends) (h : handleEvent e o fd s = .ok t) :
    e = .read ∧ ∃ ret mid, helloRead o fd s.conn = .ok (ret, mid) ∧
      t.stm = { s.stm with current := some ret } ∧
      Goes s.conn.isSocks o fd SocksV5State.helloRead.num (helloReadClose fd) mid ret t.conn := by
  obtain ⟨handler, ret, mid, last, picked, ran, stm, moved, ended⟩ :=
    table_event current (by unfold statesOf; cases s.conn.isSocks <;> rfl) h
  obtain rfl : e = .read := by
    cases e
    · rfl
    · cases picked
    · cases picked
  obtain rfl := Option.some.inj picked
  refine ⟨rfl, ret, mid, ran, stm, goes_of_event (by decide) rfl ?_ moved ended⟩
  obtain ⟨d, -, -, rfl | ⟨_, _, _, _, _, -, -, -, -, ⟨-, rfl, -⟩ | ⟨-, rfl, -⟩⟩⟩ := helloRead_ok ran
  · exact Or.inr (errorState_terminal ends.error)
  · exact Or.inl (by decide)
  · exact Or.inl (by decide)

theorem helloWrite_event (current : s.stm.current = some SocksV5State.helloWrite.num)
    (ends : s.conn.Ends) (h : handleEvent e o fd s = .ok t) :
    e = .write ∧ ∃ ret mid, helloWrite o fd s.conn = .ok (ret, mid) ∧
      t.stm = { s.stm with current := some ret } ∧
      Goes s.conn.isSocks o fd SocksV5State.helloWrite.num .ok mid ret t.conn := by
  obtain ⟨handler, ret, mid, last, picked, ran, stm, moved, ended⟩ :=
    table_event current (by unfold statesOf; cases s.conn.isSocks <;> rfl) h
  obtain rfl : e = .write := by
    cases e
    · cases picked
    · rfl
    · cases picked
  obtain rfl := Option.some.inj picked
  refine ⟨rfl, ret, mid, ran, stm, goes_of_event (by decide) rfl ?_ moved ended⟩
  obtain ⟨d, -, -, rfl | ⟨_, -, ⟨-, rfl, -⟩ | ⟨-, ⟨-, rfl, -⟩ | ⟨-, -, rfl, -⟩⟩⟩⟩ := helloWrite_ok ran
  · exact Or.inr (errorState_terminal ends.error)
  · exact Or.inl (by decide)
  · exact Or.inr (doneState_terminal ends.done)
  · refine Or.inl ?_
    unfold helloNext
    split
    · decide
    · split <;> decide

theorem userpassRead_event (current : s.stm.current = some SocksV5State.userpassRead.num)
    (ends : s.conn.Ends) (h : handleEvent e o fd s = .ok t) :
    e = .read ∧ ∃ ret mid, authRead o fd s.conn = .ok (ret, mid) ∧
      t.stm = { s.stm with current := some ret } ∧
      Goes s.conn.isSocks o fd SocksV5State.userpassRead.num (authReadClose fd) mid ret t.conn := by
  obtain ⟨handler, ret, mid, last, picked, ran, stm, moved, ended⟩ :=
    table_event current (by unfold statesOf; cases s.conn.isSocks <;> rfl) h
  obtain rfl : e = .read := by
    cases e
    · rfl
    · cases picked
    · cases picked
  obtain rfl := Option.some.inj picked
  refine ⟨rfl, ret, mid, ran, stm, goes_of_event (by decide) rfl ?_ moved ended⟩
  obtain ⟨d, -, -, rfl | ⟨_, _, _, _, _, -, -, -, -, ⟨-, rfl, -⟩ | ⟨-, rfl, -⟩⟩⟩ := authRead_ok ran
  · exact Or.inr (errorState_terminal ends.error)
  · exact Or.inl (by decide)
  · exact Or.inl (by decide)

theorem userpassWrite_event (current : s.stm.current = some SocksV5State.userpassWrite.num)
    (ends : s.conn.Ends) (h : handleEvent e o fd s = .ok t) :
    e = .write ∧ ∃ ret mid, authWrite o fd s.conn = .ok (ret, mid) ∧
      t.stm = { s.stm with current := some ret } ∧
      Goes s.conn.isSocks o fd SocksV5State.userpassWrite.num .ok mid ret t.conn := by
  obtain ⟨handler, ret, mid, last, picked, ran, stm, moved, ended⟩ :=
    table_event current (by unfold statesOf; cases s.conn.isSocks <;> rfl) h
  obtain rfl : e = .write := by
    cases e
    · cases picked
    · rfl
    · cases picked
  obtain rfl := Option.some.inj picked
  refine ⟨rfl, ret, mid, ran, stm, goes_of_event (by decide) rfl ?_ moved ended⟩
  obtain ⟨d, -, -, rfl | ⟨_, -, ⟨-, rfl, -⟩ | ⟨-, ⟨-, rfl, -⟩ | ⟨-, -, rfl, -⟩⟩⟩⟩ := authWrite_ok ran
  · exact Or.inr (errorState_terminal ends.error)
  · exact Or.inl (by decide)
  · exact Or.inr (doneState_terminal ends.done)
  · exact Or.inl (by decide)

/-! ## What the negotiation keeps -/

/-- The states of the negotiation, with what they watch for. -/
def Session.Talks (s : Session) : Prop :=
  (s.stm.current = none ∧ s.stm.initial = SocksV5State.helloRead.num ∨
      s.stm.current = some SocksV5State.helloRead.num ∨
      s.stm.current = some SocksV5State.userpassRead.num) ∧
        s.conn.interestOf s.conn.clientFd = opRead ∨
    (s.stm.current = some SocksV5State.helloWrite.num ∨
      s.stm.current = some SocksV5State.userpassWrite.num) ∧
        s.conn.interestOf s.conn.clientFd = opWrite

/-- The method is one that the server has, and so is the one that was chosen. -/
def Socks5.Methods (c : Socks5) : Prop :=
  ∀ d, c.client = .hello d → (d.method = 0xFF ∨ d.method = 0x00 ∨ d.method = 0x02) ∧
    ∀ p, d.parser = .live p → p.method = 0x00 ∨ p.method = 0x02

theorem methods_start (method : c.authMethod = 0x00 ∨ c.authMethod = 0x02)
    (h : helloReadInit o fd c = .ok d) : d.Methods := by
  intro d' member
  rcases helloReadInit_ok h with rfl | rfl
  · obtain rfl := ClientSt.hello.inj member
    exact ⟨Or.inl rfl, fun p live => nomatch live⟩
  · obtain rfl := ClientSt.hello.inj member
    refine ⟨Or.inl rfl, fun p live => ?_⟩
    obtain rfl := Owned.live.inj live
    unfold helloParserOf
    cases c.isSocks
    · exact Or.inr rfl
    · exact method

theorem helloParserFeed_method (q : HelloParser × UInt8) (b : UInt8) :
    (helloParserFeed q b).1.method = q.1.method ∧
      ((helloParserFeed q b).2 = q.2 ∨ (helloParserFeed q b).2 = q.1.method) := by
  obtain ⟨p, data⟩ := q
  cases state : p.state with
  | version =>
    simp only [helloParserFeed, state]
    split <;> simp
  | methods =>
    simp only [helloParserFeed, state, onHelloMethod]
    split
    · rename_i hit
      simp [hit]
    · simp
  | nmethods | done | errorUnsupportedVersion => simp [helloParserFeed, state]

/-- The parser only ever selects the method it was given. -/
theorem helloConsume_method {b b' : Buffer} {p p' : HelloParser} {data data' : UInt8} {error : Bool}
    (h : helloConsume b p data = .ok (b', (p', data'), error)) :
    p'.method = p.method ∧ (data' = data ∨ data' = p.method) := by
  obtain ⟨fed, -⟩ := helloConsume_ok h
  obtain ⟨bytes, -, all, -⟩ := feedUntil_consumed fed
  clear fed h
  generalize start : (p, data) = q at all
  have keep : q.1.method = p.method ∧ (q.2 = data ∨ q.2 = p.method) := by
    rw [← start]
    exact ⟨rfl, Or.inl rfl⟩
  clear start
  induction bytes generalizing q with
  | nil =>
    obtain rfl : q = (p', data') := Except.ok.inj all
    exact keep
  | cons b bytes ih =>
    obtain ⟨method, selected⟩ := helloParserFeed_method q b
    refine ih (helloParserFeed q b) all ⟨method.trans keep.1, ?_⟩
    rcases selected with same | chosen
    · rw [same]
      exact keep.2
    · exact Or.inr (chosen.trans keep.1)

/-- The event sends the end of the answer that lets the client on to its request. -/
def Session.LetsOn (s : Session) (o : Outcome) : Prop :=
  s.stm.current = some SocksV5State.helloWrite.num ∧
      (∃ d, s.conn.client = .hello d ∧ d.method = methodNoAuthenticationRequired) ∧
      (∃ bytes, sentBytes o s.conn.writeBuffer = some bytes ∧
        bufferReadPtr (bufferTake s.conn.writeBuffer bytes.length) = []) ∨
    s.stm.current = some SocksV5State.userpassWrite.num ∧ s.conn.authentication = 0x00 ∧
      ∃ bytes, sentBytes o s.conn.replied.writeBuffer = some bytes ∧
        bufferReadPtr (bufferTake s.conn.replied.writeBuffer bytes.length) = []

/-- What an event of the negotiation leaves: another state of it, the end of the
connection, or the first state past it, with nothing left to send. -/
def Session.TalksOn (s : Session) (o : Outcome) (fd : Int) (t : Session) : Prop :=
  t.Talks ∧ t.conn.Methods ∧ s.conn.Talked fd t.conn ∨
    (∃ ret last, Terminal s.conn.isSocks ret ∧ t.stm.current = some ret ∧ s.conn.Talked fd last ∧
      finish s.conn.isSocks last = .ok t.conn) ∨
    t.stm.current = some SocksV5State.requestRead.num ∧ s.LetsOn o ∧ ∃ mid, s.conn.Talked fd mid ∧
      bufferReadPtr mid.writeBuffer = [] ∧ mid.interestOf fd = opRead ∧
      requestArrival s.conn.isSocks o fd mid = .ok t.conn

theorem interestOf_tuned {i : FdInterest} (registered : c.sel.Registered fd)
    (sel : d.sel = (selectorSetInterest c.sel fd i).2) : d.interestOf fd = i := by
  unfold Conn.interestOf
  rw [sel]
  exact interestOf_setInterest registered

section
variable {isSocks : Bool} {entry : StateDefinition Conn}

theorem helloWrite_arrival
    (there : (statesOf isSocks o fd)[SocksV5State.helloWrite.num]? = some entry)
    (arrived : runHook entry.onArrival c = .ok d) : d = c := by
  have ran : helloWriteInit fd c = .ok d := by
    cases isSocks <;> obtain rfl := Option.some.inj there <;> exact arrived
  obtain ⟨-, -, same⟩ := bind_eq_ok.mp ran
  exact (Except.ok.inj same).symm

theorem userpassRead_arrival
    (there : (statesOf isSocks o fd)[SocksV5State.userpassRead.num]? = some entry) :
    runHook entry.onArrival c = authReadInit o fd c := by
  cases isSocks <;> obtain rfl := Option.some.inj there <;> rfl

theorem userpassWrite_arrival
    (there : (statesOf isSocks o fd)[SocksV5State.userpassWrite.num]? = some entry)
    (arrived : runHook entry.onArrival c = .ok d) : d = c := by
  have ran : authWriteInit fd c = .ok d := by
    cases isSocks <;> obtain rfl := Option.some.inj there <;> exact arrived
  obtain ⟨-, -, same⟩ := bind_eq_ok.mp ran
  exact (Except.ok.inj same).symm

theorem request_arrival
    (there : (statesOf isSocks o fd)[SocksV5State.requestRead.num]? = some entry) :
    runHook entry.onArrival c = requestArrival isSocks o fd c := by
  cases isSocks <;> obtain rfl := Option.some.inj there <;> rfl

end

/-- A change of the client's union is no change to the negotiation. -/
theorem talked_client (c : Conn) (fd : Int) (x : ClientSt) :
    c.Talked fd { c with client := x } :=
  talked_fields ⟨rfl, rfl, rfl, rfl, rfl, rfl, rfl, rfl⟩ rfl rfl rfl rfl rfl rfl id

theorem helloRead_talks (current : s.stm.current = some SocksV5State.helloRead.num)
    (interest : s.conn.interestOf s.conn.clientFd = opRead) (methods : s.conn.Methods)
    (ends : s.conn.Ends) (h : handleEvent e o s.conn.clientFd s = .ok t) :
    s.TalksOn o s.conn.clientFd t := by
  obtain ⟨-, ret, mid, ran, stm, goes⟩ := helloRead_event current ends h
  obtain ⟨d, member, talked, how⟩ := helloRead_ok ran
  have closes : ∀ {left}, helloReadClose s.conn.clientFd mid = .ok left → mid.Talked s.conn.clientFd left := by
    intro left closed
    obtain ⟨d', -, ⟨-, rfl⟩ | rfl⟩ := helloReadClose_ok closed
    · exact .refl _ _
    · exact talked_client _ _ _
  have fed : ∀ {bytes p rb p' method}, d.parser = .live p →
      helloConsume (bufferFill s.conn.readBuffer bytes) p d.method = .ok (rb, (p', method), false) →
      (helloFed s.conn.clientFd s.conn d bytes rb p' method).Methods := by
    intro bytes p rb p' method live consumed d' member'
    obtain rfl := ClientSt.hello.inj member'
    obtain ⟨before, parser⟩ := methods d member
    obtain ⟨kept, selected⟩ := helloConsume_method consumed
    have parser := parser p live
    refine ⟨?_, fun q live' => ?_⟩
    · rcases selected with rfl | rfl
      · exact before
      · exact Or.inr parser
    · obtain rfl := Owned.live.inj live'
      rw [kept]
      exact parser
  cases goes with
  | ends terminal departed fin =>
    exact Or.inr (Or.inl ⟨ret, _, terminal, by rw [stm], talked.trans (closes departed), fin⟩)
  | stays =>
    rcases how with failed | ⟨bytes, p, rb, p', method, -, -, live, consumed, how⟩
    · exact absurd failed.symm (terminal_ne (by decide) (errorState_terminal ends.error))
    · rcases how with ⟨-, -, eq⟩ | ⟨-, ret_eq, -⟩
      · refine Or.inl ⟨Or.inl ⟨Or.inr (Or.inl (by rw [stm])), ?_⟩, ?_, talked⟩
        · rw [eq]
          exact interest
        · rw [eq]
          exact fed live consumed
      · cases ret_eq
  | @moves ret entry left last ne early there departed arrived =>
    rcases how with rfl | ⟨bytes, p, rb, p', method, -, -, live, consumed, how⟩
    · exact absurd (errorState_terminal ends.error) (not_terminal early)
    · rcases how with ⟨-, rfl, -⟩ | ⟨-, rfl, registered, wb, -, rfl⟩
      · exact absurd rfl ne
      · obtain rfl := helloWrite_arrival there arrived
        refine Or.inl ⟨Or.inr ⟨Or.inl (by rw [stm]), ?_⟩, ?_, talked.trans (closes departed)⟩
        · obtain ⟨d', -, ⟨-, eq⟩ | eq⟩ := helloReadClose_ok departed
          · rw [eq]
            exact interestOf_tuned registered rfl
          · rw [eq]
            exact interestOf_tuned registered rfl
        · obtain ⟨d', member', ⟨-, eq⟩ | eq⟩ := helloReadClose_ok departed
          · rw [eq]
            exact fed live consumed
          · have before : (helloFed s.conn.clientFd s.conn d bytes rb p' method).Methods := fed live consumed
            intro d'' member''
            rw [eq] at member''
            obtain rfl := ClientSt.hello.inj member''
            exact ⟨(before d' member').1, fun q live' => nomatch live'⟩

theorem helloWrite_talks (current : s.stm.current = some SocksV5State.helloWrite.num)
    (interest : s.conn.interestOf s.conn.clientFd = opWrite) (methods : s.conn.Methods)
    (ends : s.conn.Ends) (h : handleEvent e o s.conn.clientFd s = .ok t) :
    s.TalksOn o s.conn.clientFd t := by
  obtain ⟨-, ret, mid, ran, stm, goes⟩ := helloWrite_event current ends h
  obtain ⟨d, member, talked, how⟩ := helloWrite_ok ran
  cases goes with
  | ends terminal departed fin =>
    obtain rfl := Except.ok.inj departed
    exact Or.inr (Or.inl ⟨ret, _, terminal, by rw [stm], talked, fin⟩)
  | stays =>
    rcases how with failed | ⟨bytes, -, ⟨-, -, eq⟩ | ⟨-, ⟨-, ret_eq, -⟩ | ⟨not, -, ret_eq, -⟩⟩⟩
    · exact absurd failed.symm (terminal_ne (by decide) (errorState_terminal ends.error))
    · refine Or.inl ⟨Or.inr ⟨Or.inl (by rw [stm]), ?_⟩, ?_, talked⟩
      · rw [eq]
        exact interest
      · rw [eq]
        exact methods
    · exact absurd ret_eq.symm (terminal_ne (by decide) (doneState_terminal ends.done))
    · rcases (methods d member).1.resolve_left not with method | method <;>
        rw [method] at ret_eq <;> cases ret_eq
  | @moves ret entry left last ne early there departed arrived =>
    obtain rfl := Except.ok.inj departed
    rcases how with rfl |
        ⟨bytes, sent, ⟨-, rfl, -⟩ | ⟨flushed, ⟨-, rfl, -⟩ | ⟨not, registered, rfl, rfl⟩⟩⟩
    · exact absurd (errorState_terminal ends.error) (not_terminal early)
    · exact absurd rfl ne
    · exact absurd (doneState_terminal ends.done) (not_terminal early)
    · have reading := interestOf_tuned (i := opRead) (c := s.conn.sentOff s.conn.clientFd bytes)
        (d := (s.conn.sentOff s.conn.clientFd bytes).setInterest s.conn.clientFd opRead) registered rfl
      rcases (methods d member).1.resolve_left not with method | method
      · rw [method] at there stm
        rw [request_arrival there] at arrived
        have flushed := bufferCanRead_eq_false.mp flushed
        have lets : s.LetsOn o := Or.inl ⟨current, ⟨d, member, method⟩, bytes, sent, flushed⟩
        exact Or.inr (Or.inr ⟨by rw [stm]; rfl, lets, _, talked, flushed, reading, arrived⟩)
      · rw [method] at there stm
        rw [userpassRead_arrival there] at arrived
        obtain ⟨d', eq, -⟩ := authReadInit_ok arrived
        refine Or.inl ⟨Or.inl ⟨Or.inr (Or.inr (by rw [stm]; rfl)), ?_⟩, ?_, ?_⟩
        · rw [eq]
          exact reading
        · intro d'' member''
          rw [eq] at member''
          cases member''
        · rw [eq]
          exact talked.trans (talked_client _ _ _)

theorem userpassRead_talks (current : s.stm.current = some SocksV5State.userpassRead.num)
    (interest : s.conn.interestOf s.conn.clientFd = opRead)
    (ends : s.conn.Ends) (h : handleEvent e o s.conn.clientFd s = .ok t) :
    s.TalksOn o s.conn.clientFd t := by
  obtain ⟨-, ret, mid, ran, stm, goes⟩ := userpassRead_event current ends h
  obtain ⟨d, member, talked, how⟩ := authRead_ok ran
  cases goes with
  | ends terminal departed fin =>
    obtain ⟨d', parser, -, rfl⟩ := authReadClose_ok departed
    exact Or.inr (Or.inl ⟨ret, _, terminal, by rw [stm], talked.trans (talked_client _ _ _), fin⟩)
  | stays =>
    rcases how with failed | ⟨bytes, p, rb, p', st, -, -, -, -, ⟨-, -, eq⟩ | ⟨-, ret_eq, -⟩⟩
    · exact absurd failed.symm (terminal_ne (by decide) (errorState_terminal ends.error))
    · refine Or.inl ⟨Or.inl ⟨Or.inr (Or.inr (by rw [stm])), ?_⟩, ?_, talked⟩
      · rw [eq]
        exact interest
      · intro d' member'
        rw [eq] at member'
        cases member'
    · cases ret_eq
  | @moves ret entry left last ne early there departed arrived =>
    rcases how with rfl | ⟨bytes, p, rb, p', st, -, -, -, -, ⟨-, rfl, -⟩ |
        ⟨-, rfl, registered, username, password, result, userIndex, -, -, eq⟩⟩
    · exact absurd (errorState_terminal ends.error) (not_terminal early)
    · exact absurd rfl ne
    · obtain ⟨d', parser, -, left_eq⟩ := authReadClose_ok departed
      obtain rfl := userpassWrite_arrival there arrived
      refine Or.inl ⟨Or.inr ⟨Or.inr (by rw [stm]), ?_⟩, ?_, ?_⟩
      · rw [left_eq, eq]
        exact interestOf_tuned registered rfl
      · intro d'' member''
        rw [left_eq] at member''
        cases member''
      · rw [left_eq]
        exact talked.trans (talked_client _ _ _)

theorem userpassWrite_talks (current : s.stm.current = some SocksV5State.userpassWrite.num)
    (interest : s.conn.interestOf s.conn.clientFd = opWrite)
    (ends : s.conn.Ends) (h : handleEvent e o s.conn.clientFd s = .ok t) :
    s.TalksOn o s.conn.clientFd t := by
  obtain ⟨-, ret, mid, ran, stm, goes⟩ := userpassWrite_event current ends h
  obtain ⟨d, member, talked, how⟩ := authWrite_ok ran
  cases goes with
  | ends terminal departed fin =>
    obtain rfl := Except.ok.inj departed
    exact Or.inr (Or.inl ⟨ret, _, terminal, by rw [stm], talked, fin⟩)
  | stays =>
    rcases how with failed | ⟨bytes, -, ⟨-, -, eq⟩ | ⟨-, ⟨-, ret_eq, -⟩ | ⟨-, -, ret_eq, -⟩⟩⟩
    · exact absurd failed.symm (terminal_ne (by decide) (errorState_terminal ends.error))
    · refine Or.inl ⟨Or.inr ⟨Or.inr (by rw [stm]), ?_⟩, ?_, talked⟩
      · rw [eq]
        exact interest
      · intro d' member'
        rw [eq] at member'
        exact absurd (member'.symm.trans member) (by simp)
    · exact absurd ret_eq.symm (terminal_ne (by decide) (doneState_terminal ends.done))
    · cases ret_eq
  | @moves ret entry left last ne early there departed arrived =>
    obtain rfl := Except.ok.inj departed
    rcases how with rfl |
        ⟨bytes, sent, ⟨-, rfl, -⟩ | ⟨flushed, ⟨-, rfl, -⟩ | ⟨granted, registered, rfl, rfl⟩⟩⟩
    · exact absurd (errorState_terminal ends.error) (not_terminal early)
    · exact absurd rfl ne
    · exact absurd (doneState_terminal ends.done) (not_terminal early)
    · rw [request_arrival there] at arrived
      have flushed := bufferCanRead_eq_false.mp flushed
      have lets : s.LetsOn o := Or.inr ⟨current, granted, bytes, sent, flushed⟩
      exact Or.inr (Or.inr ⟨by rw [stm], lets, _, talked, flushed,
        interestOf_tuned (c := s.conn.replied.sentOff s.conn.clientFd bytes) registered rfl, arrived⟩)

/-- An event of the negotiation, the one that arrives in it included. -/
theorem talks_event (talks : s.Talks) (methods : s.conn.Methods) (ends : s.conn.Ends)
    (method : s.conn.authMethod = 0x00 ∨ s.conn.authMethod = 0x02)
    (h : handleEvent e o s.conn.clientFd s = .ok t) : s.TalksOn o s.conn.clientFd t := by
  rcases talks with ⟨⟨first, initial⟩ | current | current, interest⟩ | ⟨current | current, interest⟩
  · obtain ⟨start, init, h⟩ := first_event first initial h
    have methods' := methods_start method init
    -- the session that the arrival hook left
    have arrived : s.conn.Talked s.conn.clientFd start := by
      rcases helloReadInit_ok init with rfl | rfl
      · exact talked_client _ _ _
      · exact (talked_client _ _ _).trans (talked_log _ _ trivial)
    have same : start.interestOf s.conn.clientFd = opRead := by
      rcases helloReadInit_ok init with rfl | rfl <;> exact interest
    have ends' : start.Ends := by
      refine ⟨?_, ?_⟩
      · rw [arrived.same.errorState, arrived.same.isSocks]
        exact ends.error
      · rw [arrived.same.doneState, arrived.same.isSocks]
        exact ends.done
    have socks := arrived.same.isSocks
    have clientFd := arrived.same.clientFd
    rw [← clientFd] at h same arrived ⊢
    have on := helloRead_talks (s := ⟨_, start⟩) rfl same methods' ends' h
    unfold Session.TalksOn at on ⊢
    rw [← socks]
    rcases on with ⟨talks, methods, talked⟩ | ⟨ret, last, terminal, current, talked, fin⟩ |
        ⟨-, ⟨early, -⟩ | ⟨early, -⟩, -⟩
    · exact Or.inl ⟨talks, methods, arrived.trans talked⟩
    · exact Or.inr (Or.inl ⟨ret, last, terminal, current, arrived.trans talked, fin⟩)
    · exact nomatch early
    · exact nomatch early
  · exact helloRead_talks current interest methods ends h
  · exact userpassRead_talks current interest ends h
  · exact helloWrite_talks current interest methods ends h
  · exact userpassWrite_talks current interest ends h

end

end SocksProxy
