import SocksProxy.Gate
import SocksProxy.Gauge
import SocksProxy.Startup

/-!
# Who is let on, and who changes the settings

A client gets past the negotiation without a login where none was asked for, and else with that
of an account. The users, the method and the dissectors are settings of the whole server, and only
a management client with an account of the credentials file changes them.
-/

namespace SocksProxy

open Lib

/-- The client sent the login of the account, and its lookup returned 0x00. -/
def Socks5.LoggedInAs (c : Socks5) (isSocks : Bool) (a : Account) : Prop :=
  ∃ (methods username password rest : List UInt8) (n m : UInt8),
    n.toNat = username.length ∧ m.toNat = password.length ∧
    c.Greeted isSocks methods
      (userpassMethodVersion :: n :: (username ++ m :: (password ++ rest))) ∧
    checkCall isSocks (some (username ++ [0])) (some (password ++ [0])) 0x00 ∈ c.calls ∧
    a = ⟨chars username, chars password⟩

/-- `hello_read_init` copied 0x00, which asks for no authentication, and the client listed it. -/
def Socks5.Unasked (c : Socks5) : Prop :=
  .helloReadInit methodNoAuthenticationRequired ∈ c.calls ∧
    ∃ methods rest, c.Greeted true methods rest ∧ methodNoAuthenticationRequired ∈ methods

/-- What lets a client on: it was not asked for a login, or it sent that of a known account. -/
def Socks5.Cleared (c : Socks5) (isSocks : Bool) (known : Account → Prop) : Prop :=
  isSocks = true ∧ c.Unasked ∨ ∃ a, known a ∧ c.LoggedInAs isSocks a

/-- A client that is past the negotiation, or about to be, is cleared. -/
def Session.Vouched (known : Bool → Account → Prop) (s : Session) : Prop :=
  ∀ isSocks, s.conn.isSocks = isSocks →
    s.Negotiates ∧ s.Gated isSocks ∧
        (s.stm.current = some SocksV5State.userpassWrite.num → s.conn.authentication = 0x00 →
          ∃ a, known isSocks a ∧ s.conn.LoggedInAs isSocks a) ∨
      s.conn.Cleared isSocks (known isSocks)

/-- The accounts that logins are looked up among: those that the table of the users had in the
course of a run, and those of the credentials file. -/
def known (ls : List (Process × Happening)) (trusted : List Account) (isSocks : Bool) (a : Account) :
    Prop :=
  if isSocks then ∃ q ∈ ls, q.1.world.users.Has q.1.world.heap a.name a.pass else a ∈ trusted

/-- What the requests of the management port change. -/
def World.settings (w : World) : UserTable × UInt8 × UInt8 :=
  (w.users, w.authMethod, w.passwordDissectors)

/-- The happening is an event of a management client in REQUEST_READ that logged in with an
account of the list. -/
def Process.Administered (p : Process) (trusted : List Account) : Happening → Prop
  | .event _ fd _ _ => ∃ key x, p.part key = some x ∧ x.2.Has fd ∧
      (view x p.world).InMng .requestRead ∧ ∃ a ∈ trusted, x.2.LoggedInAs false a
  | .resolved _ _ _ => False

section
variable {others socks mng : List Nat} {dissectors : UInt8} {base : Int → Bool} {p p' : Process}
  {l : Happening} {ls : List (Process × Happening)} {s t : Session} {e : Event} {o : Outcome}
  {fd : Int} {c d : Conn} {accounts trusted : List Account} {ptrs ptrs' : List (Nat × Nat)}
  {a : Account} {isSocks : Bool} {among among' : Bool → Account → Prop} {P : Account → Prop}

/-! ## One client -/

theorem loggedInAs_more {more : List Call} (h : c.LoggedInAs isSocks a)
    (client : d.clientFd = c.clientFd) (calls : d.calls = c.calls ++ more) :
    d.LoggedInAs isSocks a := by
  obtain ⟨methods, username, password, rest, n, m, first, second, greeted, call, account⟩ := h
  have greeted := greeted_more greeted (received_more client calls)
  refine ⟨methods, username, password, rest ++ receivedFrom c.clientFd more, n, m, first, second, ?_,
    ?_, account⟩
  · simpa only [List.append_assoc, List.cons_append] using greeted
  · rw [calls]
    exact List.mem_append_left _ call

theorem cleared_more {more : List Call} (h : c.Cleared isSocks P) (client : d.clientFd = c.clientFd)
    (calls : d.calls = c.calls ++ more) : d.Cleared isSocks P := by
  rcases h with ⟨socks, call, methods, rest, greeted, listed⟩ | ⟨a, known, login⟩
  · refine .inl ⟨socks, ?_, methods, _, greeted_more greeted (received_more client calls), listed⟩
    rw [calls]
    exact List.mem_append_left _ call
  · exact .inr ⟨a, known, loggedInAs_more login client calls⟩

theorem unguarded_unasked (h : s.conn.Unguarded) : s.conn.Unasked := by
  obtain ⟨copied, methods, rest, greeted, listed⟩ := h
  refine ⟨?_, methods, rest, greeted, listed⟩
  have member : methodNoAuthenticationRequired ∈ methodsCopied s.conn.calls := by
    rw [copied]
    exact .head _
  obtain ⟨call, here, same⟩ := List.mem_filterMap.mp member
  cases call with
  | helloReadInit method =>
    obtain rfl := Option.some.inj same
    exact here
  | _ => cases same

theorem vouched_mono (vouched : s.Vouched among) (more : ∀ isSocks a, among isSocks a → among' isSocks a) :
    s.Vouched among' := by
  intro isSocks kind
  rcases vouched isSocks kind with ⟨n, g, login⟩ | unasked | ⟨a, known, login⟩
  · refine .inl ⟨n, g, fun at' granted => ?_⟩
    obtain ⟨a, known, login⟩ := login at' granted
    exact ⟨a, more _ a known, login⟩
  · exact .inr (.inl unasked)
  · exact .inr (.inr ⟨a, more _ a known, login⟩)

theorem vouched_framed (vouched : s.Vouched among) (f : s.conn.Framed d) :
    (⟨s.stm, d⟩ : Session).Vouched among := by
  obtain ⟨answer, record⟩ := f.record
  intro isSocks kind
  rw [record] at kind
  rcases vouched isSocks kind with ⟨n, g, login⟩ | h
  · refine .inl ⟨negotiates_framed n f, gated_framed g f, fun at' granted => ?_⟩
    rw [record] at granted ⊢
    exact login at' granted
  · refine .inr ?_
    rw [record]
    exact h

theorem born_vouched (isSocks : Bool) (s : Session) (born : JustAccepted isSocks s) :
    s.Vouched among := by
  intro kind same
  have gated := accepted_gated born
  obtain rfl : isSocks = kind := gated.1.symm.trans same
  obtain ⟨-, -, stm, -⟩ := accepted_footing born
  refine .inl ⟨accepted_negotiates born, gated, fun at' => ?_⟩
  rw [stm] at at'
  cases at'

theorem helloNext_other (method : UInt8) : helloNext method ≠ SocksV5State.userpassWrite.num := by
  unfold helloNext
  split
  · decide
  · split <;> decide

/-- The answer to the login comes after the login, or goes on. -/
theorem arrives_write (n : s.Negotiates) (fired : handleEvent e o s.conn.clientFd s = .ok t)
    (next : t.Negotiates) (at' : t.stm.current = some SocksV5State.userpassWrite.num) :
    s.stm.current = some SocksV5State.userpassRead.num ∨
      s.stm.current = some SocksV5State.userpassWrite.num ∧
        t.conn.authentication = s.conn.authentication := by
  have early : ∀ {ret : Nat} {isSocks : Bool}, t.stm.current = some ret → ¬ Terminal isSocks ret := by
    intro ret isSocks current terminal
    have late : ¬ ret < 7 := fun early => not_terminal early terminal
    exact beyond_not_talks ⟨ret, current, by omega⟩ next.talks
  have greeting : ∀ {v : Session}, v.stm.current = some SocksV5State.helloRead.num → v.conn.Ends →
      handleEvent e o s.conn.clientFd v = .ok t → False := by
    intro v current ends fired
    obtain ⟨-, ret, mid, ran, stm, goes⟩ := helloRead_event current ends fired
    have ret' : ret = SocksV5State.userpassWrite.num := by
      rw [stm] at at'
      exact Option.some.inj at'
    obtain ⟨d, -, -, failed | ⟨bytes, p, rb, p', method, -, -, -, -, ⟨-, same, -⟩ | ⟨-, same, -⟩⟩⟩ :=
      helloRead_ok ran
    · exact early (by rw [stm]) (failed ▸ errorState_terminal ends.error)
    · cases ret'.symm.trans same
    · cases ret'.symm.trans same
  rcases n.talks with ⟨⟨first, initial⟩ | current | current, -⟩ | ⟨current | current, -⟩
  · obtain ⟨start, init, fired⟩ := first_event first initial fired
    obtain ⟨-, n'⟩ := first_negotiates n first init
    exact (greeting rfl n'.ends fired).elim
  · exact (greeting current n.ends fired).elim
  · exact .inl current
  · obtain ⟨-, ret, mid, ran, stm, goes⟩ := helloWrite_event current n.ends fired
    have ret' : ret = SocksV5State.userpassWrite.num := by
      rw [stm] at at'
      exact Option.some.inj at'
    obtain ⟨d, -, -, failed | ⟨bytes, -, ⟨-, same, -⟩ | ⟨-, ⟨-, done, -⟩ | ⟨-, -, same, -⟩⟩⟩⟩ :=
      helloWrite_ok ran
    · exact absurd (failed ▸ errorState_terminal n.ends.error) (early (by rw [stm]))
    · cases ret'.symm.trans same
    · exact absurd (done ▸ doneState_terminal n.ends.done) (early (by rw [stm]))
    · exact absurd (same.symm.trans ret') (helloNext_other d.method)
  · obtain ⟨-, ret, mid, ran, stm, goes⟩ := userpassWrite_event current n.ends fired
    have ret' : ret = SocksV5State.userpassWrite.num := by
      rw [stm] at at'
      exact Option.some.inj at'
    subst ret'
    obtain ⟨going, ⟨-, eq⟩ | ⟨ne, -⟩⟩ := goes_on goes (by rw [stm]) next
    · obtain ⟨d, -, -, failed | ⟨bytes, -, ⟨-, -, same⟩ | ⟨-, ⟨-, done, -⟩ | ⟨-, -, same, -⟩⟩⟩⟩ :=
        authWrite_ok ran
      · exact absurd (failed ▸ errorState_terminal n.ends.error) going
      · refine .inr ⟨current, ?_⟩
        rw [eq, same]
        rfl
      · exact absurd (done ▸ doneState_terminal n.ends.done) going
      · cases same
    · exact absurd rfl ne

/-- The login of a client, with the accounts of the tables that it is looked up in. -/
theorem vouched_event (users : Tabled s.conn.heap s.conn.users ptrs accounts)
    (admins : Tabled s.conn.heap s.conn.admins ptrs' trusted)
    (listed : ∀ a ∈ if isSocks then accounts else trusted, P a) (n : s.Negotiates)
    (g : s.Gated isSocks)
    (login : s.stm.current = some SocksV5State.userpassWrite.num → s.conn.authentication = 0x00 →
      ∃ a, P a ∧ s.conn.LoggedInAs isSocks a)
    (held : s.conn.Holds fd) (fired : handleEvent e o fd s = .ok t) (next : t.Negotiates)
    (kept : ∀ a, s.conn.LoggedInAs isSocks a → t.conn.LoggedInAs isSocks a)
    (at' : t.stm.current = some SocksV5State.userpassWrite.num)
    (granted : t.conn.authentication = 0x00) : ∃ a, P a ∧ t.conn.LoggedInAs isSocks a := by
  obtain rfl := negotiates_held n held
  rcases arrives_write n fired next at' with current | ⟨current, same⟩
  · obtain ⟨-, methods, username, password, rest, k, m, first, second, greeted, call, looked⟩ :=
      userpassRead_looks n g current fired next at'
    obtain ⟨r, looked', member⟩ := looksUp_spec username password users admins
    have answer := Except.ok.inj (looked'.symm.trans looked)
    rw [g.1, answer] at member
    rw [granted] at call
    exact ⟨_, listed _ (member.mp granted), methods, username, password, rest, k, m, first, second,
      greeted, call, rfl⟩
  · obtain ⟨a, known, before⟩ := login current (same.symm.trans granted)
    exact ⟨a, known, kept a before⟩

/-- A client that leaves the negotiation is cleared, or over. -/
theorem vouched_beyond (n : s.Negotiates) (g : s.Gated isSocks)
    (login : s.stm.current = some SocksV5State.userpassWrite.num → s.conn.authentication = 0x00 →
      ∃ a, P a ∧ s.conn.LoggedInAs isSocks a)
    (held : s.conn.Holds fd) (fired : handleEvent e o fd s = .ok t) (beyond : t.Beyond) :
    Terminal isSocks (t.stm.current.getD 0) ∨ s.conn.Cleared isSocks P := by
  obtain rfl := negotiates_held n held
  have kind := g.1
  rcases talks_event n.talks n.methods n.ends n.footing.method fired with
      ⟨talks, -⟩ | ⟨ret, last, terminal, current, -⟩ | ⟨-, lets, -⟩
  · exact absurd talks (beyond_not_talks beyond)
  · rw [current, ← kind]
    exact .inl terminal
  · rcases lets with ⟨current, ⟨d, member, none'⟩, -⟩ | ⟨current, granted, -⟩
    · simp only [Session.Gated, current] at g
      obtain ⟨-, d', member', open', -⟩ := g
      obtain rfl := ClientSt.hello.inj (member.symm.trans member')
      obtain ⟨socks, unguarded⟩ := open' none'
      exact .inr (.inl ⟨socks, unguarded_unasked unguarded⟩)
    · exact .inr (.inr (login current granted))

/-- A connection in use is not over. -/
theorem sound_going (sound : s.Sound) : ¬ Terminal s.conn.isSocks (s.stm.current.getD 0) := by
  intro terminal
  rcases sound with ⟨k, place, -, going⟩ | serves
  · have socks : s.conn.isSocks = true := by
      rcases place_live place with ⟨-, fits⟩ | ⟨done | failed, -⟩
      · exact fits.socks
      · exact done.1
      · exact failed.1
    rw [socks] at terminal
    cases current : s.stm.current with
    | none =>
      rw [current] at terminal
      exact absurd terminal (not_terminal (by decide))
    | some n =>
      rw [current] at terminal
      rcases terminal with rfl | rfl
      · exact going (.inr ⟨socks, current⟩)
      · exact going (.inl ⟨socks, current⟩)
  · rw [serves.mng] at terminal
    rcases serves.stage with ⟨talks, -⟩ | ⟨state, listed, ⟨-, current⟩, -⟩
    · exact beyond_not_talks (terminal_beyond terminal) talks
    · rw [current] at terminal
      refine not_terminal ?_ terminal
      cases state <;> first | decide | exact absurd listed (by decide)

/-! ## The server -/

theorem did_vouched (sound : p.Sound base) (did : p.Did l p') (stores : p.Stores accounts trusted)
    (listed : ∀ isSocks : Bool, ∀ a ∈ if isSocks then accounts else trusted, among isSocks a)
    (vouched : p.All (Session.Vouched among)) : p'.All (Session.Vouched among) := by
  apply did_all sound did vouched_framed born_vouched ?_ vouched
  intro e fd o a key x more marks t label called step turns sound' before isSocks kind
  obtain ⟨stm, record, world⟩ := taken_world e fd (view x p.world)
  have kind' : x.2.isSocks = isSocks := by
    rw [turns.acts.isSocks, record] at kind
    exact kind
  have client : t.conn.clientFd = x.2.clientFd := by
    rw [turns.acts.clientFd, record]
    rfl
  rcases before isSocks kind' with ⟨n, g, login⟩ | h
  · obtain ⟨ptrs, users⟩ := stores.users
    obtain ⟨ptrs', admins⟩ := stores.admins
    have frame := framed_taken e fd (view x p.world)
    have negotiates : ((view x p.world).taken e fd).Negotiates := by
      have framed := negotiates_framed n frame
      cases e <;> exact framed
    have gated : ((view x p.world).taken e fd).Gated isSocks := by
      have framed := gated_framed g frame
      cases e <;> exact framed
    have held : ((view x p.world).taken e fd).conn.Holds fd := by
      have held := turns.held
      cases e <;> exact held
    have login' : ((view x p.world).taken e fd).stm.current = some SocksV5State.userpassWrite.num →
        ((view x p.world).taken e fd).conn.authentication = 0x00 →
          ∃ a, among isSocks a ∧ ((view x p.world).taken e fd).conn.LoggedInAs isSocks a := by
      rw [stm, record]
      exact login
    rcases negotiates_step n step with next | beyond
    · refine .inl ⟨next, gated_event negotiates gated held turns.fired next, ?_⟩
      have users' : Tabled ((view x p.world).taken e fd).conn.heap
          ((view x p.world).taken e fd).conn.users ptrs accounts := by
        cases e <;> exact users
      have admins' : Tabled ((view x p.world).taken e fd).conn.heap
          ((view x p.world).taken e fd).conn.admins ptrs' trusted := by
        cases e <;> exact admins
      have kept : ∀ a, ((view x p.world).taken e fd).conn.LoggedInAs isSocks a →
          t.conn.LoggedInAs isSocks a := by
        rw [record]
        exact fun a h => loggedInAs_more (c := (view x p.world).conn) h client (turns_calls turns)
      exact vouched_event users' admins' (listed isSocks) negotiates gated login' held turns.fired
        next kept
    · refine .inr ?_
      rcases vouched_beyond negotiates gated login' held turns.fired beyond with terminal | h
      · rw [← kind] at terminal
        exact absurd terminal (sound_going sound')
      · rw [record] at h
        exact cleared_more (c := (view x p.world).conn) h client (turns_calls turns)
  · exact .inr (cleared_more (c := (view x p.world).conn) h client (turns_calls turns))

/-- What is known of the connections after a run. -/
theorem run_vouched {heap : Heap} {users admins : UserTable}
    (start : mainProcess others socks mng dissectors heap users admins = some p)
    (stocked : Stocked heap users admins accounts trusted) (run : Run Process.Step p ls p')
    (keeps : ∀ q ∈ ls, q.1.KeepsCount q.2) : p'.All (Session.Vouched (known ls trusted)) := by
  refine run_kept (I := fun ls q => q.All (Session.Vouched (known ls trusted))) start ?_ ?_ run keeps
  · intro key x there
    cases ((main_sound start).2 key).symm.trans there
  · intro ls q l q' before keeps sound did vouched
    obtain ⟨us, -, -, stores⟩ := run_stores start stocked before keeps
    obtain ⟨ptrs, held⟩ := stores.users
    refine did_vouched sound did stores (fun isSocks a member => ?_) ?_
    · cases isSocks with
      | true => exact ⟨(q, l), List.mem_append_right _ (.head _), (has_iff held a.name a.pass).mpr member⟩
      | false => exact member
    · intro key x there
      refine vouched_mono (vouched key x there) fun isSocks a old => ?_
      cases isSocks with
      | true =>
        obtain ⟨r, earlier, has⟩ := old
        exact ⟨r, List.mem_append_left _ earlier, has⟩
      | false => exact old

/-- A step changes the settings only for a request that a management client may make. -/
theorem did_settings (sound : p.Sound base) (did : p.Did l p')
    (vouched : p.All (Session.Vouched (known ls trusted)))
    (changed : p'.world.settings ≠ p.world.settings) : p.Administered trusted l := by
  cases did with
  | @turn e fd o a key x more marks t called step turns =>
    have world : ((view x p.world).taken e fd).conn.toWorld.settings = p.world.settings := by
      cases e <;> rfl
    rcases turns.acts.settings with requests | ⟨users, method, passwords⟩
    · refine ⟨key, x, turns.there, holds_has sound turns.there turns.held, requests, ?_⟩
      rcases vouched key x turns.there false requests.1 with ⟨n, -⟩ | ⟨socks, -⟩ | ⟨a, listed, login⟩
      · exact absurd n.talks (beyond_not_talks ⟨_, requests.2, by decide⟩)
      · cases socks
      · exact ⟨a, listed, login⟩
    · refine absurd ?_ changed
      rw [← world]
      exact Prod.ext users (Prod.ext method passwords)
  | @arrival isSocks fd o a w s passive offers accepted =>
    obtain ⟨n, addr, self, rest, sel, -, -, rfl, world, -⟩ := passiveAccept_accepted sound.span accepted
    refine absurd ?_ changed
    change w.settings = _
    rw [world]
    cases isSocks <;> rfl
  | @refusal isSocks fd o a w passive offers refused =>
    obtain ⟨sel, pool, world, -⟩ :=
      passiveAccept_refused sound.span (fun n addr => offers.fresh n addr) refused
    refine absurd ?_ changed
    change w.settings = _
    rw [world]
    cases isSocks <;> rfl
  | @answer answer k queued x member there =>
    refine absurd ?_ changed
    change (resolverLeaves queued answer k (view x p.world)).conn.toWorld.settings = _
    rw [resolverLeaves_eq]
    rfl

theorem played_step (played : p.play [l] = some p') : p.Step l p' := by
  unfold Process.play at played
  split at played
  · rename_i permitted
    split at played
    · rename_i q fired
      obtain rfl := Option.some.inj played
      exact ⟨permits_sound permitted, fired⟩
    · cases played
  · cases played

end

/-! ## Whole runs -/

/-- The tables after the option `-u u:p` and the credentials file of the line `u p`. -/
def managedTables : Heap × UserTable := appendUser oneUser.1 .empty [117] [112]

def managedServer : Option Process :=
  mainProcess [1, 2] [3] [4] 0 managedTables.1 oneUser.2 managedTables.2

theorem line_loaded : ∃ line, loadCredentials (fun _ => true) (List.replicate bufferLength 0)
    oneUser.1 [117, space, 112] = .ok ⟨line, managedTables.1, managedTables.2⟩ := by
  have chunk : cutLine (bufferLength - 1) [117, space, 112] = ([117, space, 112], []) := by decide
  have whole : ([117, space, 112] ++ 0 :: (List.replicate bufferLength 0).drop 4).length =
      bufferLength := by
    simp only [List.length_append, List.length_cons, List.length_nil, List.length_drop,
      List.length_replicate]
    rfl
  obtain ⟨good, -⟩ := loadLine_spec (fun _ => true)
    ⟨[117, space, 112] ++ 0 :: (List.replicate bufferLength 0).drop 4, oneUser.1, .empty⟩
    [117, space, 112] _ rfl whole
  obtain ⟨line, -, loaded⟩ := good ⟨by decide, ⟨rfl, rfl⟩, by decide⟩
  refine ⟨line, ?_⟩
  rw [loadCredentials, loadLoop_cons _ _ (by decide)]
  simp only [chunk, List.length_cons, List.length_nil]
  rw [loaded, ok_bind, loadLoop_nil]
  rfl

theorem line_accounts : (pieces [117, space, 112]).map pieceAccount = [⟨[117], [112]⟩] := by
  have chunk : cutLine (bufferLength - 1) [117, space, 112] = ([117, space, 112], []) := by decide
  rw [pieces_cons (by decide), chunk, pieces_nil]
  rfl

/-- The user comes to the management port, logs in, and asks for the method to be changed. -/
def administers : List Happening :=
  [.event .read 4 .fine firstAccept, happens (received [0x01, 0x01, 0x02]), answered,
    happens (received userMessage), answered, happens (received [12])]

/-- The request that turns the authentication off. -/
def turnsOff : Happening := happens (received [1])

section
variable {alloc : Nat → Bool} {file line : List UInt8} {s : Loader} {σ : Heap × UserTable}
  {us : List ((Heap × UserTable) × TableOp)} {others socks mng : List Nat} {dissectors : UInt8}
  {p p' p'' : Process} {l : Happening} {ls : List (Process × Happening)}

/-- In every run of a server that its options and its credentials file started, a step that
changes the users, the method or the dissectors is an event of a management client in
REQUEST_READ, which sent the name and the password of a line of the file and was let in. -/
theorem settings_guarded (options : Run TableStep noUsers us σ) (size : line.length = bufferLength)
    (loaded : loadCredentials alloc line σ.1 file = .ok s)
    (start : mainProcess others socks mng dissectors s.heap σ.2 s.admins = some p)
    (run : Run Process.Step p ls p') (keeps : ∀ q ∈ ls, q.1.KeepsCount q.2)
    (step : Process.Step p' l p'') (kept : p'.KeepsCount l)
    (changed : p''.world.settings ≠ p'.world.settings) :
    p'.Administered ((pieces file).map pieceAccount) l := by
  have sound := run_sound start run keeps
  have vouched := run_vouched start (loaded_stocked options size loaded) run keeps
  exact did_settings sound (step_did sound kept step) vouched changed

theorem settings_guarded_first : ∃ p' p'' : Process, p'.Step turnsOff p'' ∧
    p'.world.authMethod = 0x02 ∧ p''.world.authMethod = 0x00 ∧
      p'.Administered [⟨[117], [112]⟩] turnsOff := by
  have plays : (managedServer.bind fun p => p.play administers).any (fun p =>
      decide (p.world.authMethod = 0x02) &&
        (p.play [turnsOff]).any fun q => decide (q.world.authMethod = 0x00)) = true := by
    decide +kernel
  obtain ⟨p, ls, p', start, run, -, keeps, facts⟩ := served rfl plays
  obtain ⟨before, after⟩ := (Bool.and_eq_true _ _).mp facts
  obtain ⟨p'', played, off⟩ := (Option.any_eq_true _ _).mp after
  have method := of_decide_eq_true before
  have method' := of_decide_eq_true off
  have step := played_step played
  obtain ⟨line, loaded⟩ := line_loaded
  have changed : p''.world.settings ≠ p'.world.settings := by
    intro same
    have same' : p''.world.authMethod = p'.world.authMethod := congrArg (fun w => w.2.1) same
    rw [method, method'] at same'
    cases same'
  have guarded := settings_guarded option_stored List.length_replicate loaded start run keeps step
    (fine_keeps rfl) changed
  rw [line_accounts] at guarded
  exact ⟨p', p'', step, method, method', guarded⟩

/-- In every run of such a server, a connection that is past the negotiation, and not over, came
while no login was asked for and listed that method, or it sent its whole login and was let in with
an account that the table of the users had in the course of the run, at the management port with
one of the file. -/
theorem connections_cleared (options : Run TableStep noUsers us σ) (size : line.length = bufferLength)
    (loaded : loadCredentials alloc line σ.1 file = .ok s)
    (start : mainProcess others socks mng dissectors s.heap σ.2 s.admins = some p)
    (run : Run Process.Step p ls p') (keeps : ∀ q ∈ ls, q.1.KeepsCount q.2) (key : Nat)
    (x : StateMachine × Socks5) (there : p'.part key = some x)
    (requests : (view x p'.world).Requests x.2.isSocks) :
    x.2.Cleared x.2.isSocks (known ls ((pieces file).map pieceAccount) x.2.isSocks) := by
  have vouched := run_vouched start (loaded_stocked options size loaded) run keeps key x there
  obtain ⟨m, current, late, -⟩ := requests_late requests
  rcases vouched x.2.isSocks rfl with ⟨n, -⟩ | cleared
  · exact absurd n.talks (beyond_not_talks ⟨m, current, late⟩)
  · exact cleared

/-- The first client of the proxy logs in. -/
theorem connections_cleared_first :
    ∃ (p' : Process) (ls : List (Process × Happening)) (x : StateMachine × Socks5),
      p'.part 7 = some x ∧ (view x p'.world).In .requestRead ∧
        x.2.Cleared true (known ls [⟨[117], [112]⟩] true) := by
  have plays : (managedServer.bind fun p => p.play (greeted ++ [happens (received userMessage),
      answered])).any (fun p => (p.part 7).any fun x => decide ((view x p.world).In .requestRead)) =
        true := by
    decide +kernel
  obtain ⟨p, ls, p', start, run, -, keeps, facts⟩ := served rfl plays
  obtain ⟨x, there, reads⟩ := (Option.any_eq_true _ _).mp facts
  have reads := of_decide_eq_true reads
  obtain ⟨line, loaded⟩ := line_loaded
  have socks : x.2.isSocks = true := reads.1
  have requests : (view x p'.world).Requests x.2.isSocks := by
    rw [socks]
    exact ⟨.requestRead, by decide, reads.2⟩
  have cleared := connections_cleared option_stored List.length_replicate loaded start run keeps 7 x there
    requests
  rw [line_accounts, socks] at cleared
  exact ⟨p', ls, x, there, reads, cleared⟩

end

end SocksProxy
