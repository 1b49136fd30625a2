import SocksProxy.Answers
import SocksProxy.Framing
import SocksProxy.Malformed

/-!
# The credentials that are looked up

`auth_read` runs `auth_process` whenever its parser stops, also when it stopped at a
version that it refused. The username and the password are then still NULL.
-/

namespace SocksProxy

open Lib

/-- The username/password message: a version, a username, a password. -/
def authFields : List ParserField := [.one (some checkVersion), .counted, .counted]

/-- `auth_read` calls `auth_process` with the parser `p`, which `consume` left in `st`. -/
def AuthProcessed (o : Outcome) (fd : Int) (c : Conn) (p : Parser) (st : ParserState) : Prop :=
  ∃ d q bytes rb error, c.client = .userpass d ∧ d.status = .success ∧
    recvBytes o (bufferWritePtr c.readBuffer) = some bytes ∧ bytes ≠ [] ∧
    d.parser = .live (.ready q) ∧
    consume (bufferFill c.readBuffer bytes) q = .ok (rb, p, st, error) ∧ isDone st = true ∧
    c.interestStatus fd opWrite = .success

/-- A step in USERPASS_READ that takes bytes of the client, or that is no event. -/
def ReadsAuth (s : Session) (l : Label) : Prop :=
  s.stm.current = some SocksV5State.userpassRead.num ∧
    match l with
    | .event e fd o => e = .read ∧ fd = s.conn.clientFd ∧
        (∃ d, s.conn.userpass = .ok d ∧ d.status = .success) ∧
        ∃ b bytes, recvBytes o (bufferWritePtr s.conn.readBuffer) = some (b :: bytes)
    | _ => True

/-- A call that compares credentials. -/
def Call.Checks : Call → Prop
  | .checkCredentials _ _ _ | .checkMngCredentials _ _ _ => True
  | _ => False

/-- What the event that completes the stream `w` in USERPASS_READ may do. -/
structure AuthGuarded (s : Session) (o : Outcome) (w : List UInt8) : Prop where
  done : ∀ p st, AuthProcessed o s.conn.clientFd s.conn p st →
    st = .doneRead ∧ ∃ username password, p.resultAt 2 = .ok (some username) ∧
      p.resultAt 4 = .ok (some password)
  unprocessed : (∀ p st, ¬ AuthProcessed o s.conn.clientFd s.conn p st) → ∃ ret c more,
    authRead o s.conn.clientFd s.conn = .ok (ret, c) ∧ c.calls = s.conn.calls ++ more ∧
      (∀ call ∈ more, ¬ call.Checks) ∧
      c.metrics.historicAuthAttempts = s.conn.metrics.historicAuthAttempts
  refused : w.head? ≠ some userpassMethodVersion → ∃ t more,
    handleEvent .read o s.conn.clientFd s = .ok t ∧ t.stm.current = some s.conn.errorState ∧
      t.conn.calls = s.conn.calls ++ more ∧ (∀ call ∈ more, ¬ call.Checks) ∧
      t.conn.metrics.historicAuthAttempts = s.conn.metrics.historicAuthAttempts

section
variable {s t u : Session} {ls ms : List (Session × Label)} {l : Label} {isSocks : Bool} {o : Outcome}
  {fd : Int} {c : Conn} {p : Parser} {st : ParserState} {r : FieldReader} {fed w : List UInt8}

/-! ## The parser of the message -/

/-- `auth_read` does call it, with the tables as they are. -/
theorem authRead_processes (h : AuthProcessed o fd c p st) : ∃ (mid : Conn) (error : Bool),
    (∀ username password, mid.looksUp username password = c.looksUp username password) ∧
      authRead o fd c =
        authProcess p mid >>= fun r => .ok (if error then c.errorState else r.1, r.2) := by
  obtain ⟨d, q, bytes, rb, error, member, fine, got, nonempty, live, consumed, done, accepted⟩ := h
  obtain ⟨b, bytes, rfl⟩ := List.exists_cons_of_ne_nil nonempty
  obtain ⟨parser, status⟩ := d
  obtain rfl : status = .success := fine
  have cell := cellParser_ok.mpr live
  have found := userpass_ok.mpr member
  refine ⟨(authFed fd c ⟨parser, .success⟩ (b :: bytes) rb p).setInterest fd opWrite, error,
    fun _ _ => rfl, ?_⟩
  have accepted' : (authFed fd c ⟨parser, .success⟩ (b :: bytes) rb p).interestStatus fd opWrite =
      .success := accepted
  unfold authFed at accepted' ⊢
  simp only [authRead, found, ok_bind, reduceCtorEq, if_false, got, cell, consumed, done,
    if_true, accepted']
  rfl

/-- It calls nothing that compares credentials before its parser has stopped. -/
theorem authRead_waits {d : UserpassSt} {q : Parser} {bytes : List UInt8} {rb : Buffer}
    {error : Bool} (member : c.client = .userpass d) (fine : d.status = .success)
    (got : recvBytes o (bufferWritePtr c.readBuffer) = some bytes) (nonempty : bytes ≠ [])
    (live : d.parser = .live (.ready q))
    (consumed : consume (bufferFill c.readBuffer bytes) q = .ok (rb, p, st, error))
    (going : isDone st = false) : ∃ ret, authRead o fd c = .ok (ret, authFed fd c d bytes rb p) := by
  obtain ⟨b, bytes, rfl⟩ := List.exists_cons_of_ne_nil nonempty
  have found := userpass_ok.mpr member
  have cell := cellParser_ok.mpr live
  refine ⟨if error then c.errorState else SocksV5State.userpassRead.num, ?_⟩
  have good : ¬ d.status = .error := by
    rw [fine]
    decide
  simp only [authRead, found, ok_bind, if_neg good, got, cell, consumed, going, Bool.false_eq_true,
    if_false]
  rfl

theorem checkVersion_accepts (b : UInt8) :
    checkAccepts (some checkVersion) b = true ↔ b = userpassMethodVersion := by
  by_cases same : b = userpassMethodVersion <;>
    simp [checkAccepts, runCheck, checkVersion, same]

/-- A parser of the message that goes on has read nothing, or the right version first. -/
theorem auth_going (spells : Spells checkAccepts UInt8.toNat authFields fed r)
    (going : ∀ read check todo, r ≠ .refused read check todo) :
    fed = [] ∧ r.stopped = false ∨ fed.head? = some userpassMethodVersion := by
  have begins : ∀ {past todo : List ParserField} {read bs}, authFields = past ++ todo →
      Parsed past read bs → bs = [] ∧ todo = authFields ∨ bs.head? = some userpassMethodVersion := by
    intro past todo read bs split message
    cases message with
    | nil => exact Or.inl ⟨rfl, split.symm⟩
    | one accepted _ =>
      obtain ⟨same, -⟩ := List.cons.inj split
      obtain rfl := FieldKind.one.inj same
      exact Or.inr (congrArg some ((checkVersion_accepts _).mp accepted))
    | counted _ _ => cases (List.cons.inj split).1
  cases spells with
  | between split message =>
    rcases begins split message with ⟨empty, rfl⟩ | head
    · exact Or.inl ⟨empty, rfl⟩
    · exact Or.inr head
  | @within past todo read bs part n left split message fed length some' =>
    rcases begins split message with ⟨rfl, -⟩ | head
    · cases message with
      | nil => cases (List.cons.inj split).1
    · refine Or.inr ?_
      rw [fed, List.head?_append, head]
      rfl
  | refused => exact absurd rfl (going _ _ _)

/-- A parser of the message refuses nothing but its version. -/
theorem auth_refused {read : List (List UInt8)} {check : Option Check} {todo : List ParserField}
    (spells : Spells checkAccepts UInt8.toNat authFields fed (.refused read check todo)) :
    ∃ b, fed = [b] ∧ b ≠ userpassMethodVersion := by
  cases spells with
  | @refused past _ _ _ bs b split message fed refused =>
    have first : past = [] ∧ check = some checkVersion := by
      match past, split with
      | [], split => exact ⟨rfl, (FieldKind.one.inj (List.cons.inj split).1).symm⟩
      | [_], split => cases (List.cons.inj (List.cons.inj split).2).1
      | [_, _], split => cases (List.cons.inj (List.cons.inj (List.cons.inj split).2).2).1
      | _ :: _ :: _ :: _, split => simp [authFields] at split
    obtain ⟨rfl, rfl⟩ := first
    cases message with
    | nil =>
      refine ⟨b, fed, fun same => ?_⟩
      rw [(checkVersion_accepts b).mpr same] at refused
      cases refused

/-- A parser that has read the whole message holds both strings. -/
theorem auth_done {read : List (List UInt8)} (traces : Traces authFields p (.between read [])) :
    p.current = .doneRead ∧ ∃ version username password, read = [version, username, password] ∧
      p.resultAt 2 = .ok (some (username ++ [0])) ∧ p.resultAt 4 = .ok (some (password ++ [0])) := by
  cases traces with
  | @between past _ _ kept split done states size index current =>
    rw [List.append_nil] at split
    subst split
    rw [List.flatMap_nil, List.append_nil] at states
    refine ⟨current, ?_⟩
    cases done with
    | one _ done =>
      cases done with
      | counted first done =>
        cases done with
        | counted second done =>
          cases done with
          | nil =>
            refine ⟨_, _, _, rfl, ?_, ?_⟩
            · simp only [Parser.resultAt, states]
              exact congrArg Except.ok first
            · simp only [Parser.resultAt, states]
              exact congrArg Except.ok second

/-! ## Reading the message -/

/-- A session of USERPASS_READ that has read the stream `w` since it arrived there. -/
def AuthRead (w : List UInt8) (s : Session) : Prop :=
  s.stm.current = some SocksV5State.userpassRead.num → ∃ d, s.conn.client = .userpass d ∧
    (d.status = .success → ∃ (q : Parser) (r : FieldReader) (fed : List UInt8),
      d.parser = .live (.ready q) ∧ Traces authFields q r ∧ r.stopped = false ∧
        Spells checkAccepts UInt8.toNat authFields fed r ∧
          w = fed ++ bufferReadPtr s.conn.readBuffer)

theorem authRead_framed {d : Conn} (h : AuthRead w s) (f : s.conn.Framed d) :
    AuthRead w ⟨s.stm, d⟩ := by
  obtain ⟨answer, record⟩ := f.record
  intro at'
  rw [record]
  exact h at'

/-- What the event of a session of USERPASS_READ feeds its parser with. -/
theorem authRead_consumes {d : UserpassSt} {q : Parser} {bytes : List UInt8} {rb : Buffer}
    {error : Bool} (h : AuthRead w s) (at' : s.stm.current = some SocksV5State.userpassRead.num)
    (member : s.conn.client = .userpass d) (fine : d.status = .success)
    (live : d.parser = .live (.ready q)) (nonempty : bytes ≠ [])
    (got : recvBytes o (bufferWritePtr s.conn.readBuffer) = some bytes)
    (consumed : consume (bufferFill s.conn.readBuffer bytes) q = .ok (rb, p, st, error)) :
    ∃ (r : FieldReader) (fed : List UInt8), Traces authFields p r ∧
      Spells checkAccepts UInt8.toNat authFields fed r ∧ w ++ bytes = fed ++ bufferReadPtr rb ∧
        st = p.current ∧ isDone st = r.stopped ∧ (r.stopped = false → bufferReadPtr rb = []) := by
  obtain ⟨d', member', parsed⟩ := h at'
  obtain rfl := ClientSt.userpass.inj (member.symm.trans member')
  obtain ⟨q', r, fed, live', traces, going, spells, rfl⟩ := parsed fine
  obtain rfl := ParserCell.ready.inj (Owned.live.inj (live.symm.trans live'))
  have room := recvBytes_le got
  obtain ⟨r', more, traces', spells', split, state, done, -, rest⟩ :=
    consume_spells traces going spells (fill_canRead nonempty room) consumed
  rw [bufferFill_readPtr room] at split
  refine ⟨r', fed ++ more, traces', spells', ?_, state, done, rest⟩
  rw [List.append_assoc, split, List.append_assoc]

theorem authRead_event (n : s.Negotiates) (h : AuthRead w s)
    (reads : ReadsAuth s (.event .read s.conn.clientFd o))
    (fired : handleEvent .read o s.conn.clientFd s = .ok t) :
    AuthRead (w ++ bytesRead (s, .event .read s.conn.clientFd o)) t := by
  obtain ⟨current, -, -, ⟨d, found, fine⟩, b, bytes, got⟩ := reads
  have took : bytesRead (s, .event .read s.conn.clientFd o) = b :: bytes := by simp [bytesRead, got]
  rw [took]
  intro back
  obtain ⟨-, ret, mid, ran, stm, goes⟩ := userpassRead_event current n.ends fired
  obtain rfl : SocksV5State.userpassRead.num = ret := by
    rw [stm] at back
    exact (Option.some.inj back).symm
  obtain ⟨d', member, talked, how⟩ := authRead_ok ran
  obtain rfl := ClientSt.userpass.inj ((userpass_ok.mp found).symm.trans member)
  obtain rfl : t.conn = mid := by
    cases goes with
    | stays => rfl
    | moves ne => exact absurd rfl ne
    | ends terminal => exact absurd rfl (terminal_ne (by decide) terminal)
  rcases how with failed | ⟨bytes', p, rb, p', st, nonempty, got', live, consumed,
      ⟨running, -, eq⟩ | ⟨-, ret_eq, -⟩⟩
  · exact absurd failed.symm (terminal_ne (by decide) (errorState_terminal n.ends.error))
  · obtain rfl : b :: bytes = bytes' := Option.some.inj (got.symm.trans got')
    obtain ⟨r, fed, traces, spells, split, -, done, -⟩ :=
      authRead_consumes h current member fine live nonempty got consumed
    rw [eq]
    exact ⟨_, rfl, fun _ => ⟨p', r, fed, rfl, traces, done ▸ running, spells, split⟩⟩
  · cases ret_eq

theorem authRead_step (n : s.Negotiates) (h : AuthRead w s) (reads : ReadsAuth s l)
    (step : Guarded s l t) : AuthRead (w ++ bytesRead (s, l)) t := by
  obtain ⟨allowed, fired⟩ := step
  cases l with
  | event e fd o =>
    have ⟨_, read, client, _⟩ := reads
    subst read client
    exact authRead_event n h reads fired
  | resolved answer fd =>
    obtain rfl := Except.ok.inj fired
    change AuthRead (w ++ []) _
    rw [List.append_nil]
    exact authRead_framed h (framed_resolved answer _ s)
  | env w' =>
    obtain rfl := Except.ok.inj fired
    change AuthRead (w ++ []) _
    rw [List.append_nil]
    exact authRead_framed h (framed_env allowed)

/-- The arrival hook sets up a parser that has read nothing. -/
theorem authRead_start (arrival : authReadInit o fd c = .ok s.conn) :
    AuthRead (bufferReadPtr s.conn.readBuffer) s := by
  obtain ⟨d, eq, status⟩ := authReadInit_ok arrival
  intro _
  refine ⟨d, by rw [eq], fun fine => ?_⟩
  rcases status with failed | ⟨-, parser⟩
  · rw [failed] at fine
    cases fine
  · exact ⟨authParser, .between [] authFields, [], parser, traces_start rfl, rfl, spells_start, rfl⟩

/-- A session arrives in USERPASS_READ with a parser that has read nothing. -/
theorem authRead_arrival (n : t.Negotiates) (step : Guarded t l s) (next : s.Negotiates)
    (moved : t.stm.current ≠ s.stm.current)
    (at' : s.stm.current = some SocksV5State.userpassRead.num) :
    AuthRead (bufferReadPtr s.conn.readBuffer) s := by
  have event : ∀ {e o} {v : Session}, v.Negotiates → v.stm.current ≠ s.stm.current →
      handleEvent e o v.conn.clientFd v = .ok s →
      ∃ mid, authReadInit o v.conn.clientFd mid = .ok s.conn := by
    intro e o v n moved fired
    have helloReads : ∀ {v : Session}, v.Negotiates →
        v.stm.current = some SocksV5State.helloRead.num →
        handleEvent e o v.conn.clientFd v = .ok s → False := by
      intro v n current fired
      obtain ⟨-, ret, mid, ran, stm, -⟩ := helloRead_event current n.ends fired
      rw [stm] at at'
      obtain rfl := Option.some.inj at'
      obtain ⟨_, -, -, failed | ⟨_, _, _, _, _, -, -, -, -, ⟨-, eq, -⟩ | ⟨-, eq, -⟩⟩⟩ :=
        helloRead_ok ran
      · exact absurd failed.symm (terminal_ne (by decide) (errorState_terminal n.ends.error))
      · cases eq
      · cases eq
    rcases n.talks with ⟨⟨first, initial⟩ | current | current, -⟩ | ⟨current | current, -⟩
    · obtain ⟨start, init, fired⟩ := first_event first initial fired
      obtain ⟨client, n'⟩ := first_negotiates n first init
      rw [← client] at fired
      exact (helloReads n' rfl fired).elim
    · exact (helloReads n current fired).elim
    · exact absurd (current.trans at'.symm) moved
    · obtain ⟨-, ret, mid, ran, stm, goes⟩ := helloWrite_event current n.ends fired
      rw [stm] at at'
      obtain rfl := Option.some.inj at'
      cases goes with
      | moves ne early there departed arrived =>
        obtain rfl := Except.ok.inj departed
        rw [userpassRead_arrival there] at arrived
        exact ⟨_, arrived⟩
      | ends terminal => exact absurd rfl (terminal_ne (by decide) terminal)
    · obtain ⟨-, ret, mid, ran, stm, -⟩ := userpassWrite_event current n.ends fired
      rw [stm] at at'
      obtain rfl := Option.some.inj at'
      obtain ⟨_, -, -, failed | ⟨_, -, ⟨-, eq, -⟩ | ⟨-, ⟨-, eq, -⟩ | ⟨-, -, eq, -⟩⟩⟩⟩ :=
        authWrite_ok ran
      · exact absurd failed.symm (terminal_ne (by decide) (errorState_terminal n.ends.error))
      · cases eq
      · exact absurd eq.symm (terminal_ne (by decide) (doneState_terminal n.ends.done))
      · cases eq
  obtain ⟨o, fd, mid, arrival⟩ : ∃ o fd mid, authReadInit o fd mid = .ok s.conn := by
    obtain ⟨allowed, fired⟩ := step
    cases l with
    | event e fd o =>
      obtain rfl := negotiates_held n ⟨allowed.1.1.2, allowed.1.2.1⟩
      cases e with
      | read =>
        obtain ⟨mid, arrival⟩ := event n moved fired
        exact ⟨_, _, mid, arrival⟩
      | write =>
        obtain ⟨mid, arrival⟩ := event n moved fired
        exact ⟨_, _, mid, arrival⟩
      | block =>
        obtain ⟨mid, arrival⟩ := event (v := takeJob t.conn.clientFd t)
          (negotiates_framed n (framed_takeJob t.conn.clientFd t)) moved fired
        exact ⟨_, _, mid, arrival⟩
    | resolved answer fd =>
      obtain rfl := Except.ok.inj fired
      exact absurd rfl moved
    | env w =>
      obtain rfl := Except.ok.inj fired
      exact absurd rfl moved
  exact authRead_start arrival

/-- A run that reads a client's message, in whatever pieces `recv` gives it. -/
theorem authRead_run (n : s.Negotiates) (h : AuthRead w s) (run : Run Guarded s ls t)
    (reads : ∀ p ∈ ls, ReadsAuth p.1 p.2) :
    t.Negotiates ∧ AuthRead (w ++ ls.flatMap bytesRead) t ∨ t.Beyond := by
  induction run with
  | start => exact Or.inl ⟨n, by simpa using h⟩
  | @next ls t u l _ step ih =>
    have here := reads (t, l) (by simp)
    rcases ih fun p member => reads p (List.mem_append_left _ member) with ⟨n, h⟩ | ⟨state, at', late⟩
    · rcases negotiates_step n step with next | beyond
      · have after := authRead_step n h here step
        rw [List.append_assoc] at after
        exact Or.inl ⟨next, by simpa using after⟩
      · exact Or.inr beyond
    · obtain rfl := Option.some.inj (here.1.symm.trans at')
      exact absurd late (by decide)

/-- With the right version first, the parser stops with a message it has read whole. -/
theorem auth_processed {d : UserpassSt} {bytes : List UInt8} (h : AuthRead w s)
    (current : s.stm.current = some SocksV5State.userpassRead.num)
    (member : s.conn.client = .userpass d)
    (got : recvBytes o (bufferWritePtr s.conn.readBuffer) = some bytes)
    (processed : AuthProcessed o s.conn.clientFd s.conn p st)
    (head : (w ++ bytes).head? = some userpassMethodVersion) :
    st = .doneRead ∧ ∃ username password, p.resultAt 2 = .ok (some username) ∧
      p.resultAt 4 = .ok (some password) := by
  obtain ⟨d', q, bytes', rb, error, member', fine, got', nonempty, live, consumed, stopped, -⟩ :=
    processed
  obtain rfl := ClientSt.userpass.inj (member.symm.trans member')
  obtain rfl := Option.some.inj (got.symm.trans got')
  obtain ⟨r, fed, traces, spells, split, state, done, -⟩ :=
    authRead_consumes h current member fine live nonempty got consumed
  rw [stopped] at done
  cases r with
  | within => cases done
  | between read todo =>
    cases todo with
    | cons => cases done
    | nil =>
      obtain ⟨done', version, username, password, -, second, fourth⟩ := auth_done traces
      exact ⟨state.trans done', _, _, second, fourth⟩
  | refused read check todo =>
    obtain ⟨x, rfl, wrong⟩ := auth_refused spells
    rw [split] at head
    exact absurd (Option.some.inj head) wrong

/-- An event that leaves the parser short of its end compares nothing. -/
theorem auth_unprocessed {d : UserpassSt} {bytes : List UInt8} (h : AuthRead w s)
    (current : s.stm.current = some SocksV5State.userpassRead.num)
    (member : s.conn.client = .userpass d) (fine : d.status = .success)
    (got : recvBytes o (bufferWritePtr s.conn.readBuffer) = some bytes) (nonempty : bytes ≠ [])
    (registered : s.conn.sel.Registered s.conn.clientFd)
    (idle : ∀ p st, ¬ AuthProcessed o s.conn.clientFd s.conn p st) :
    ∃ ret c more, authRead o s.conn.clientFd s.conn = .ok (ret, c) ∧
      c.calls = s.conn.calls ++ more ∧ (∀ call ∈ more, ¬ call.Checks) ∧
      c.metrics.historicAuthAttempts = s.conn.metrics.historicAuthAttempts := by
  obtain ⟨d', member', parsed⟩ := h current
  obtain rfl := ClientSt.userpass.inj (member.symm.trans member')
  obtain ⟨q, r, fed, live, traces, going, -, -⟩ := parsed fine
  obtain ⟨rb, p, consumed, -, -⟩ :=
    consume_traces traces going (fill_canRead nonempty (recvBytes_le got))
  have short : isDone p.current = false := eq_false_of_ne_true fun stopped =>
    idle p p.current ⟨d, q, bytes, rb, _, member, fine, got, nonempty, live, consumed, stopped,
      interestStatus_success.mpr registered⟩
  obtain ⟨ret, ran⟩ := authRead_waits member fine got nonempty live
    consumed short
  refine ⟨ret, _, [.recv s.conn.clientFd (some bytes)], ran, rfl, fun call one => ?_, rfl⟩
  obtain rfl := List.mem_singleton.mp one
  exact id

/-- The credentials are looked up with a complete message only, and a wrong version ends
the connection, if and only if the version is right. -/
theorem auth_guarded_iff {before : List (Session × Label)} {v : Session} {l' : Label}
    (start : JustAccepted isSocks s) (early : Run Guarded s before t) (step : Guarded t l u)
    (moved : t.stm.current ≠ u.stm.current)
    (at' : u.stm.current = some SocksV5State.userpassRead.num) (run : Run Guarded u ls v)
    (reads : ∀ p ∈ ls, ReadsAuth p.1 p.2) (event : l' = .event .read v.conn.clientFd o)
    (last : ReadsAuth v l') (allowed : Allowed l' v) :
    AuthGuarded v o (bufferReadPtr u.conn.readBuffer ++ ls.flatMap bytesRead ++ bytesRead (v, l')) ↔
      (bufferReadPtr u.conn.readBuffer ++ ls.flatMap bytesRead ++ bytesRead (v, l')).head? =
        some userpassMethodVersion := by
  subst event
  have inside : ∀ {x : Session}, x.stm.current = some SocksV5State.userpassRead.num → ¬ x.Beyond := by
    rintro x at' ⟨state, current, late⟩
    obtain rfl := Option.some.inj (at'.symm.trans current)
    exact absurd late (by decide)
  have first : t.Negotiates := by
    rcases negotiation_run (C := fun _ _ => True) (G := fun _ => True) (fun _ _ _ _ _ => trivial)
        start trivial early (fun _ _ => trivial) with ⟨n, -⟩ | beyond
    · exact n
    · exact absurd (beyond_step start early beyond step) (inside at')
  have second : u.Negotiates := (negotiates_step first step).resolve_right (inside at')
  obtain ⟨n, h⟩ := (authRead_run second (authRead_arrival first step second moved at') run
    reads).resolve_right (inside last.1)
  generalize bufferReadPtr u.conn.readBuffer ++ ls.flatMap bytesRead = w at h ⊢
  obtain ⟨current, -, -, ⟨d, found, fine⟩, b, bytes, got⟩ := last
  have took : bytesRead (v, .event .read v.conn.clientFd o) = b :: bytes := by simp [bytesRead, got]
  rw [took]
  have member := userpass_ok.mp found
  constructor
  · intro guarded
    obtain ⟨d', member', parsed⟩ := h current
    obtain rfl := ClientSt.userpass.inj (member.symm.trans member')
    obtain ⟨q, r, fed, live, traces, going, -, -⟩ := parsed fine
    obtain ⟨rb, p, consumed, -, -⟩ :=
      consume_traces traces going (fill_canRead (List.cons_ne_nil b bytes) (recvBytes_le got))
    obtain ⟨r', fed', traces', spells, split, -, done, rest⟩ :=
      authRead_consumes h current member fine live (List.cons_ne_nil b bytes) got consumed
    cases r' with
    | refused read check todo =>
      have state : p.current = .errorRead := by
        cases traces' with
        | refused state => exact state
      rw [state] at consumed
      obtain ⟨wrong, -⟩ := guarded.done p .errorRead ⟨d, q, b :: bytes, rb, _, member, fine, got,
        List.cons_ne_nil _ _, live, consumed, rfl, interestStatus_success.mpr allowed.1.1⟩
      cases wrong
    | between read todo =>
      rcases auth_going spells (fun _ _ _ eq => by cases eq) with ⟨rfl, runs⟩ | head
      · rw [rest runs] at split
        exact absurd split (by simp)
      · rw [split, List.head?_append, head]
        rfl
    | within read left part todo =>
      rcases auth_going spells (fun _ _ _ eq => by cases eq) with ⟨rfl, runs⟩ | head
      · rw [rest runs] at split
        exact absurd split (by simp)
      · rw [split, List.head?_append, head]
        rfl
  · intro head
    refine ⟨fun p st processed => ?_, fun idle => ?_, fun wrong => absurd head wrong⟩
    · exact auth_processed h current member got processed head
    · exact auth_unprocessed h current member fine got (List.cons_ne_nil b bytes) allowed.1.1 idle

end

/-! ## The first client -/

/-- The first client of the server with a user, when it arrives in USERPASS_READ. -/
theorem user_arrives {Q : Session → Bool}
    (plays : (accepted true firstAccept userWorld).any (fun s =>
      decide (s.conn.self = 7) && checks (fun _ _ _ _ => true) s [received [0x05, 0x01, 0x02]] &&
        (play s [received [0x05, 0x01, 0x02]]).any fun t =>
          decide (t.stm.current = some SocksV5State.helloWrite.num) &&
            (play t [(.write, 5, .fine)]).any Q) = true) :
    ∃ s ls t u, JustAccepted true s ∧ Run Guarded s ls t ∧ Guarded t (.event .write 5 .fine) u ∧
      t.stm.current = some SocksV5State.helloWrite.num ∧ Q u = true := by
  obtain ⟨s, ls, t, start, run, -, good⟩ := accepted_played rfl (by decide) userWorld_ready plays
  obtain ⟨now, plays⟩ := (Bool.and_eq_true _ _).mp good
  obtain ⟨u, played, good⟩ := (Option.any_eq_true _ _).mp plays
  obtain ⟨v, step, same⟩ := play_cons played
  obtain rfl : v = u := Option.some.inj same
  exact ⟨s, ls, t, v, start, run, step, of_decide_eq_true now, good⟩

/-- The client is in USERPASS_READ with nothing read, and an event delivers `w`. -/
def receivesFirst (w : List UInt8) (u : Session) : Bool :=
  decide (u.stm.current = some SocksV5State.userpassRead.num ∧ u.conn.clientFd = 5 ∧
      bufferReadPtr u.conn.readBuffer = [] ∧ Deliverable .read 5 u.conn ∧ 0 < u.conn.users.nusers ∧
      recvBytes (received w).2.2 (bufferWritePtr u.conn.readBuffer) = some w) &&
    match u.conn.userpass with
    | .ok d => decide (d.status = .success)
    | .error _ => false

theorem receives_first {w : List UInt8} {u : Session} (nonempty : w ≠ [])
    (h : receivesFirst w u = true) :
    u.stm.current = some SocksV5State.userpassRead.num ∧ u.conn.clientFd = 5 ∧
      0 < u.conn.users.nusers ∧ ReadsAuth u (.event .read u.conn.clientFd (received w).2.2) ∧
      Allowed (.event .read u.conn.clientFd (received w).2.2) u ∧
      bufferReadPtr u.conn.readBuffer ++ ([] : List (Session × Label)).flatMap bytesRead ++
        bytesRead (u, .event .read u.conn.clientFd (received w).2.2) = w := by
  obtain ⟨facts, status⟩ := (Bool.and_eq_true _ _).mp h
  obtain ⟨current, client, empty, delivered, users, got⟩ := of_decide_eq_true facts
  obtain ⟨d, found, fine⟩ : ∃ d, u.conn.userpass = .ok d ∧ d.status = .success := by
    split at status
    · rename_i d found
      exact ⟨d, found, of_decide_eq_true status⟩
    · cases status
  obtain ⟨b, bytes, rfl⟩ := List.exists_cons_of_ne_nil nonempty
  refine ⟨current, client, users, ⟨current, rfl, rfl, ⟨d, found, fine⟩, b, bytes, got⟩, ?_, ?_⟩
  · rw [client]
    exact ⟨delivered, fun n opened => nomatch opened⟩
  · rw [empty]
    exact congrArg (Option.getD · []) got

theorem auth_guarded_first : ∃ u : Session, 0 < u.conn.users.nusers ∧
    AuthGuarded u (received userMessage).2.2 userMessage := by
  obtain ⟨s, ls, t, u, start, early, step, current, good⟩ :=
    user_arrives (Q := receivesFirst userMessage) (by decide +kernel)
  obtain ⟨at', client, users, last, allowed, stream⟩ := receives_first (by decide) good
  have guarded := auth_guarded_iff start early step (by rw [current, at']; decide) at' .start
    (fun _ member => nomatch member) rfl last allowed
  rw [stream] at guarded
  exact ⟨u, users, guarded.mpr rfl⟩

/-- A client that sends a wrong version has NULL compared with the name of the user. -/
theorem null_credentials : ∃ s ls t l u, JustAccepted true s ∧ Run Guarded s ls t ∧ Guarded t l u ∧
    u.stm.current = some SocksV5State.userpassRead.num ∧ 0 < u.conn.users.nusers ∧
    handleEvent .read (received [0x05]).2.2 5 u = .error .nullPointer ∧
    ¬ AuthGuarded u (received [0x05]).2.2 [0x05] := by
  obtain ⟨s, ls, t, u, start, early, step, current, good⟩ :=
    user_arrives (Q := fun u => receivesFirst [0x05] u &&
      match handleEvent .read (received [0x05]).2.2 5 u with
      | .error fault => decide (fault = .nullPointer)
      | .ok _ => false) (by decide +kernel)
  obtain ⟨good, faults⟩ := (Bool.and_eq_true _ _).mp good
  obtain ⟨at', client, users, -⟩ := receives_first (List.cons_ne_nil _ _) good
  have faulted : handleEvent .read (received [0x05]).2.2 5 u = .error .nullPointer := by
    split at faults
    · rename_i fault failed
      rw [failed, of_decide_eq_true faults]
    · cases faults
  refine ⟨s, ls, t, _, u, start, early, step, at', users, faulted, fun guarded => ?_⟩
  obtain ⟨v, -, handled, -⟩ := guarded.refused (by decide)
  rw [client, faulted] at handled
  cases handled

end SocksProxy
