import SocksProxy.Handlers
import SocksProxy.Parting

/-!
# What an event touches

The handler, the hooks and the end of a connection together, for both tables.
-/

namespace SocksProxy

open Lib

/-- What an event that goes from `state` to `next` counts. -/
structure Turn (state next : SocksV5State) (o : Outcome) (more : List Call) (marks : List Mark) :
    Prop where
  threads : more.count .threadCreated =
    if state = .requestRead ∧ next = .requestResolv ∧ o.pthreadCreate = 0 then 1 else 0
  counted : more.count .counted ≤
    if state = .requestConnecting ∧ next ≠ .requestConnecting then 1 else 0
  ended : marks.count .ended = if state = .copy ∧ next = .done then 1 else 0
  bytes : bytesOf marks = if state = .copy then movedBy more else 0

/-- A record that an event can find in `state`. -/
structure Conn.Poised (own : Int → Prop) (state : SocksV5State) (c : Conn) : Prop where
  mine : c.Mine own
  socks : c.isSocks = true
  bare : state ∉ [SocksV5State.requestConnecting, .requestWrite, .copy] → c.originFd = -1
  client : state = .requestConnecting → ∀ conn, c.orig = .conn conn → own conn.clientFd
  shared : state = .requestConnecting → c.sel.Registered c.originFd → c.references ≠ 1
  shape : state = .copy → ∃ I, c.Copying I

section
variable {own : Int → Prop} {free : Prop} {e : Event} {o : Outcome} {fd : Int} {c d mid : Conn}
  {s t : Session} {state next : SocksV5State} {more : List Call} {marks : List Mark}

theorem turn_plain (plain : Plain 0 0 more marks) (early : state ≠ .requestRead) (before : state ≠ .copy) :
    Turn state next o more marks := by
  constructor
  · rw [if_neg fun both => early both.1]
    exact plain.threads
  · rw [plain.counted]
    exact Nat.zero_le _
  · rw [if_neg fun both => before both.1]
    exact List.count_eq_zero.mpr plain.going
  · rw [if_neg before]
    exact plain.still

theorem turn_behaves (early : state ≠ .requestRead) (before : state ≠ .copy)
    (h : c.Behaves own fd free d) :
    ∃ more marks, c.Acts own fd free more marks d ∧ Turn state next o more marks ∧
      .released ∉ more := by
  obtain ⟨more, marks, acts, plain⟩ := h
  exact ⟨more, marks, acts, turn_plain plain early before, plain.kept⟩

/-! ## The handlers of client_statbl -/

theorem handler_turn (poised : c.Poised own state) (mineFd : own fd)
    {handler : Conn → Result (Nat × Conn)} (picked : e.handler (state.entry o fd) = some handler)
    (ran : handler c = .ok (next.num, mid)) :
    ∃ more marks, c.Acts own fd free more marks mid ∧ Turn state next o more marks ∧
      .released ∉ more := by
  have mine := poised.mine
  cases state with
  | helloRead =>
    cases e with
    | read =>
      obtain rfl := Option.some.inj picked
      exact turn_behaves (by decide) (by decide) (helloRead_behaves mineFd ran)
    | write => cases picked
    | block => cases picked
  | helloWrite =>
    cases e with
    | read => cases picked
    | write =>
      obtain rfl := Option.some.inj picked
      exact turn_behaves (by decide) (by decide) (helloWrite_behaves mineFd ran)
    | block => cases picked
  | userpassRead =>
    cases e with
    | read =>
      obtain rfl := Option.some.inj picked
      exact turn_behaves (by decide) (by decide) (authRead_behaves mineFd ran)
    | write => cases picked
    | block => cases picked
  | userpassWrite =>
    cases e with
    | read => cases picked
    | write =>
      obtain rfl := Option.some.inj picked
      exact turn_behaves (by decide) (by decide) (authWrite_behaves mineFd ran)
    | block => cases picked
  | requestRead =>
    cases e with
    | read =>
      obtain rfl := Option.some.inj picked
      have turn : ∀ {n more marks}, Plain n 0 more marks →
          (n = if next = .requestResolv ∧ o.pthreadCreate = 0 then 1 else 0) →
          Turn .requestRead next o more marks ∧ .released ∉ more := by
        intro n more marks plain threads
        refine ⟨⟨?_, ?_, ?_, plain.still⟩, plain.kept⟩
        · rw [plain.threads, threads]
          simp
        · rw [plain.counted]
          exact Nat.zero_le _
        · exact List.count_eq_zero.mpr plain.going
      rcases requestRead_touches mineFd ran with ⟨elsewhere, more, marks, acts, plain⟩ |
          ⟨resolv, ⟨created, more, marks, acts, plain⟩ | ⟨failed, more, marks, acts, plain⟩⟩
      · refine ⟨more, marks, acts, turn plain ?_⟩
        rw [if_neg]
        rintro ⟨rfl, -⟩
        exact elsewhere rfl
      · obtain rfl := SocksV5State.num_inj resolv
        exact ⟨more, marks, acts, turn plain (by rw [if_pos ⟨rfl, created⟩])⟩
      · exact ⟨more, marks, acts, turn plain (by rw [if_neg fun both => failed both.2])⟩
    | write => cases picked
    | block => cases picked
  | requestResolv =>
    cases e with
    | read => cases picked
    | write => cases picked
    | block =>
      obtain rfl := Option.some.inj picked
      exact turn_behaves (by decide) (by decide) (requestResolvDone_behaves mineFd ran)
  | requestConnecting =>
    cases e with
    | read => cases picked
    | write =>
      obtain rfl := Option.some.inj picked
      rcases connectingWrite_touches mine poised.socks mineFd (poised.client rfl) (poised.shared rfl)
          ran with behaves | ⟨leaves, more, marks, acts, plain⟩
      · exact turn_behaves (by decide) (by decide) behaves
      · refine ⟨more, marks, acts, ⟨?_, ?_, List.count_eq_zero.mpr plain.going, plain.still⟩,
          plain.kept⟩
        · exact plain.threads
        · have left : next ≠ .requestConnecting := fun same => leaves (by rw [same])
          exact Nat.le_of_eq (plain.counted.trans (if_pos ⟨rfl, left⟩).symm)
    | block => cases picked
  | requestWrite =>
    cases e with
    | read => cases picked
    | write =>
      obtain rfl := Option.some.inj picked
      exact turn_behaves (by decide) (by decide) (requestWrite_behaves mine ran)
    | block => cases picked
  | copy =>
    obtain ⟨I, shape⟩ := poised.shape rfl
    have turn : ∀ {more marks}, Relays next.num more marks →
        Turn .copy next o more marks ∧ .released ∉ more := by
      intro more marks relays
      refine ⟨⟨?_, ?_, ?_, ?_⟩, relays.kept⟩
      · rw [relays.threads]
        rfl
      · rw [relays.counted]
        exact Nat.zero_le _
      · rw [relays.ended]
        by_cases done : next = .done
        · rw [done]
          rfl
        · rw [if_neg fun num => done (SocksV5State.num_inj num), if_neg fun both => done both.2]
      · rw [relays.bytes]
        rfl
    cases e with
    | read =>
      obtain rfl := Option.some.inj picked
      obtain ⟨more, marks, acts, relays⟩ := copyRead_acts shape mine ran
      exact ⟨more, marks, acts, turn relays⟩
    | write =>
      obtain rfl := Option.some.inj picked
      obtain ⟨more, marks, acts, relays⟩ := copyWrite_acts shape mine ran
      exact ⟨more, marks, acts, turn relays⟩
    | block => cases picked
  | done => cases e <;> cases picked
  | error => cases e <;> cases picked

/-- What comes after the handler counts nothing. -/
theorem turn_append {more' : List Call} {marks' : List Mark} (turn : Turn state next o more marks)
    (alone : more'.count .threadCreated = 0) (uncounted : more'.count .counted = 0)
    (still : state = .copy → movedBy more' = 0) (going : .ended ∉ marks') (bytes : bytesOf marks' = 0) :
    Turn state next o (more ++ more') (marks ++ marks') := by
  constructor
  · rw [List.count_append, alone, Nat.add_zero]
    exact turn.threads
  · rw [List.count_append, uncounted, Nat.add_zero]
    exact turn.counted
  · rw [List.count_append, List.count_eq_zero.mpr going, Nat.add_zero]
    exact turn.ended
  · rw [bytesOf_append, bytes, Nat.add_zero, turn.bytes]
    split
    · rename_i copying
      rw [movedBy_append, still copying, Nat.add_zero]
    · rfl

/-! ## The hooks of client_statbl -/

theorem departure_behaves (h : runHook (state.entry o fd).onDeparture c = .ok d) :
    c.Behaves own fd free d := by
  obtain ⟨x, rfl⟩ := departure_client h
  exact behaves_client _ _

theorem arrival_behaves (mine : c.Mine own) (socks : c.isSocks = true) (mineFd : own fd)
    (bare : next = .requestConnecting → c.originFd = -1)
    (opened : ∀ n : Nat, o.socket = some n → own n)
    (h : runHook (next.entry o fd).onArrival c = .ok d) : c.Behaves own fd free d := by
  have same : (Except.ok c : Result Conn) = .ok d → c.Behaves own fd free d := by
    intro eq
    obtain rfl := Except.ok.inj eq
    exact .refl _
  cases next with
  | helloRead => exact helloReadInit_behaves h
  | helloWrite => exact helloWriteInit_behaves h
  | userpassRead => exact authReadInit_behaves h
  | userpassWrite => exact authWriteInit_behaves h
  | requestRead => exact requestInit_behaves mineFd h
  | requestConnecting => exact connectingInit_behaves mine socks mineFd (bare rfl) opened h
  | copy => exact copyInit_behaves mine h
  | requestResolv => exact same h
  | requestWrite => exact same h
  | done => exact same h
  | error => exact same h

theorem errorHandler_originFd (status : SocksReplyStatus) (fd : Int) (c : Conn) :
    (errorHandler status fd c).2.originFd = c.originFd := rfl

/-- REQUEST_CONNECTING is entered with no origin socket. -/
theorem enters_bare (poised : c.Poised own state) {handler : Conn → Result (Nat × Conn)}
    (picked : e.handler (state.entry o fd) = some handler) (ran : handler c = .ok (next.num, mid))
    (moved : state ≠ next) (connecting : next = .requestConnecting) : mid.originFd = -1 := by
  subst connecting
  cases state with
  | helloRead =>
    cases e with
    | read =>
      obtain rfl := Option.some.inj picked
      obtain ⟨_, -, talked, -⟩ := helloRead_ok ran
      exact talked.same.originFd.trans (poised.bare (by decide))
    | write => cases picked
    | block => cases picked
  | helloWrite =>
    cases e with
    | read => cases picked
    | write =>
      obtain rfl := Option.some.inj picked
      obtain ⟨_, -, talked, -⟩ := helloWrite_ok ran
      exact talked.same.originFd.trans (poised.bare (by decide))
    | block => cases picked
  | userpassRead =>
    cases e with
    | read =>
      obtain rfl := Option.some.inj picked
      obtain ⟨_, -, talked, -⟩ := authRead_ok ran
      exact talked.same.originFd.trans (poised.bare (by decide))
    | write => cases picked
    | block => cases picked
  | userpassWrite =>
    cases e with
    | read => cases picked
    | write =>
      obtain rfl := Option.some.inj picked
      obtain ⟨_, -, talked, -⟩ := authWrite_ok ran
      exact talked.same.originFd.trans (poised.bare (by decide))
    | block => cases picked
  | requestRead =>
    cases e with
    | read =>
      obtain rfl := Option.some.inj picked
      refine Eq.trans ?_ (poised.bare (by decide))
      obtain ⟨x, -, ⟨-, -, rfl⟩ | ⟨-, got, -, -, -, rfl⟩ |
          ⟨-, bytes, p, rb, p', -, -, -, -, ⟨-, processed⟩ | ⟨-, -, rfl⟩⟩⟩ := requestRead_ok ran
      · rfl
      · rfl
      · have eq : mid = _ := congrArg Prod.snd processed
        rw [eq]
        rcases requestProcess_cases o fd { x with parser := .live p' } p'
            (requestFed fd c x bytes rb p') with
          ⟨_, _, -, -, eq⟩ | ⟨-, _, _, _, _, eq⟩ | ⟨-, created, eq⟩
        · rw [eq, errorHandler_originFd]
          rfl
        · rw [eq]
          rfl
        · rw [eq]
          cases created <;> rfl
      · rfl
    | write => cases picked
    | block => cases picked
  | requestResolv =>
    cases e with
    | read => cases picked
    | write => cases picked
    | block =>
      obtain rfl := Option.some.inj picked
      refine Eq.trans ?_ (poised.bare (by decide))
      unfold requestResolvDone at ran
      split at ran
      · obtain ⟨conn, -, ran⟩ := bind_eq_ok.mp ran
        obtain ⟨x, -, ran⟩ := bind_eq_ok.mp ran
        exact nomatch (Prod.mk.inj (Except.ok.inj ran)).1
      · rename_i current rest _
        obtain ⟨-, eq⟩ := Prod.mk.inj (Except.ok.inj ran)
        obtain ⟨addr, domain, len, same, -⟩ := resolved_eq current rest c
        rw [← eq, same]
        rfl
  | requestConnecting => exact absurd rfl moved
  | requestWrite =>
    cases e with
    | read => cases picked
    | write =>
      obtain rfl := Option.some.inj picked
      rcases requestWrite_ok ran with ⟨-, num, -⟩ | ⟨_, -, ⟨-, num, -⟩ | ⟨-, _, -, ⟨-, num, -⟩ | ⟨-, num, -⟩⟩⟩
      all_goals exact absurd num (by decide)
    | block => cases picked
  | copy =>
    obtain ⟨I, shape⟩ := poised.shape rfl
    have elsewhere : SocksV5State.requestConnecting.num ≠ SocksV5State.done.num ∧
        SocksV5State.requestConnecting.num ≠ SocksV5State.copy.num := by decide
    have never : ∀ {side I'}, Relayed side c mid I' SocksV5State.requestConnecting.num → False := by
      intro side I' relayed
      have ret := relayed.ret
      split at ret
      · exact elsewhere.1 ret
      · exact elsewhere.2 ret
    cases e with
    | read =>
      obtain rfl := Option.some.inj picked
      obtain ⟨side, I', -, relayed, -⟩ := copyRead_ok shape ran
      exact (never relayed).elim
    | write =>
      obtain rfl := Option.some.inj picked
      obtain ⟨side, I', -, relayed, -⟩ := copyWrite_ok shape ran
      exact (never relayed).elim
    | block => cases picked
  | done => cases e <;> cases picked
  | error => cases e <;> cases picked

/-- The relay ends in DONE only. -/
theorem copy_next (poised : c.Poised own .copy) {handler : Conn → Result (Nat × Conn)}
    (picked : e.handler (SocksV5State.copy.entry o fd) = some handler)
    (ran : handler c = .ok (next.num, mid)) : next = .done ∨ next = .copy := by
  obtain ⟨I, shape⟩ := poised.shape rfl
  have ends : ∀ {side I'}, Relayed side c mid I' next.num → next = .done ∨ next = .copy := by
    intro side I' relayed
    have ret := relayed.ret
    split at ret
    · exact .inl (SocksV5State.num_inj ret)
    · exact .inr (SocksV5State.num_inj ret)
  cases e with
  | read =>
    obtain rfl := Option.some.inj picked
    obtain ⟨side, I', -, relayed, -⟩ := copyRead_ok shape ran
    exact ends relayed
  | write =>
    obtain rfl := Option.some.inj picked
    obtain ⟨side, I', -, relayed, -⟩ := copyWrite_ok shape ran
    exact ends relayed
  | block => cases picked

/-! ## The events of client_statbl -/

/-- An event of a SOCKS connection, with what it touched and counted. -/
theorem socks_turn (at' : s.In state) (poised : s.conn.Poised own state) (mineFd : own fd)
    (opened : ∀ n : Nat, o.socket = some n → own n) (h : handleEvent e o fd s = .ok t) :
    ∃ next more marks, t.stm.current = some next.num ∧ s.conn.Acts own fd free more marks t.conn ∧
      Turn state next o more marks ∧ (.released ∈ more → next = .done ∨ next = .error) ∧
      (next = .done ∨ next = .error →
        t.conn.isOpen t.conn.clientFd = false ∧ t.conn.isOpen t.conn.originFd = false) := by
  obtain ⟨handler, mid, next, picked, ran, stm, enters⟩ := socks_event at' h
  obtain ⟨more, marks, acts, turn, kept⟩ :
      ∃ more marks, s.conn.Acts own fd free more marks mid ∧ Turn state next o more marks ∧
        .released ∉ more := handler_turn poised mineFd picked ran
  obtain ⟨last, crossed, ended⟩ := enters.hooks
  obtain ⟨more, marks, acts, turn, kept⟩ :
      ∃ more marks, s.conn.Acts own fd free more marks last ∧ Turn state next o more marks ∧
        .released ∉ more := by
    rcases crossed with ⟨-, rfl⟩ | ⟨moved, left, departed, arrived⟩
    · exact ⟨more, marks, acts, turn, kept⟩
    · by_cases copying : state = .copy
      · subst copying
        have done : next = .done := (copy_next poised picked ran).resolve_right fun same => moved same.symm
        subst done
        obtain rfl := Except.ok.inj departed
        obtain rfl := Except.ok.inj arrived
        exact ⟨more, marks, acts, turn, kept⟩
      · have behaves : mid.Behaves own fd free last := by
          have leaves : mid.Behaves own fd free left := departure_behaves departed
          have bare : next = .requestConnecting → left.originFd = -1 := by
            intro connecting
            have before : mid.originFd = -1 := enters_bare poised picked ran moved connecting
            obtain ⟨x, rfl⟩ := departure_client departed
            exact before
          have mine := (poised.mine.acts acts).behaves leaves
          have socks := (behaves_isSocks leaves).trans (acts.isSocks.trans poised.socks)
          exact leaves.trans (arrival_behaves mine socks mineFd bare opened arrived)
        obtain ⟨more', marks', acts', plain⟩ := behaves
        refine ⟨_, _, acts.trans acts', turn_append turn plain.threads plain.counted
          (fun same => absurd same copying) plain.going plain.still, ?_⟩
        rw [List.mem_append]
        exact fun member => member.elim kept plain.kept
  have current : t.stm.current = some next.num := by rw [stm]
  rcases ended with ⟨terminal, fin⟩ | ⟨notDone, notError, same⟩
  · have socks : last.isSocks = true := acts.isSocks.trans poised.socks
    have fin : finish last.isSocks last = .ok t.conn := by
      rw [socks]
      exact fin
    obtain ⟨more', acts', alone, uncounted, still, client, origin⟩ := finish_acts (poised.mine.acts acts) fin
    exact ⟨next, _, _, current, acts.trans acts', turn_append turn alone uncounted (fun _ => still)
      List.not_mem_nil rfl, fun _ => terminal, fun _ => ⟨client, origin socks⟩⟩
  · rw [← same] at acts
    exact ⟨next, more, marks, current, acts, turn, fun member => absurd member kept,
      fun terminal => (terminal.elim notDone notError).elim⟩

/-! ## The events of client_mng -/

theorem clientMng_state {n : Nat} {d : StateDefinition Conn} (h : (clientMng o fd)[n]? = some d) :
    ∃ state : MngState, n = state.num := by
  obtain ⟨bound, -⟩ := List.getElem?_eq_some_iff.mp h
  match n, bound with
  | 0, _ => exact ⟨.helloRead, rfl⟩
  | 1, _ => exact ⟨.helloWrite, rfl⟩
  | 2, _ => exact ⟨.userpassRead, rfl⟩
  | 3, _ => exact ⟨.userpassWrite, rfl⟩
  | 4, _ => exact ⟨.requestReadIndex, rfl⟩
  | 5, _ => exact ⟨.requestRead, rfl⟩
  | 6, _ => exact ⟨.requestWrite, rfl⟩
  | 7, _ => exact ⟨.done, rfl⟩
  | 8, _ => exact ⟨.error, rfl⟩
  | n + 9, bound => simp only [clientMng, List.length_cons, List.length_nil] at bound; omega

variable {place target : MngState} {ret : Nat}

/-- Only MNG_REQUEST_READ may change the options of the server. -/
theorem mng_handler (mineFd : own fd) {handler : Conn → Result (Nat × Conn)}
    (picked : e.handler (place.entry o fd) = some handler) (ran : handler c = .ok (ret, mid)) :
    c.Behaves own fd (place = .requestRead) mid := by
  cases place with
  | helloRead =>
    cases e with
    | read =>
      obtain rfl := Option.some.inj picked
      exact helloRead_behaves mineFd ran
    | write => cases picked
    | block => cases picked
  | helloWrite =>
    cases e with
    | read => cases picked
    | write =>
      obtain rfl := Option.some.inj picked
      exact helloWrite_behaves mineFd ran
    | block => cases picked
  | userpassRead =>
    cases e with
    | read =>
      obtain rfl := Option.some.inj picked
      exact authRead_behaves mineFd ran
    | write => cases picked
    | block => cases picked
  | userpassWrite =>
    cases e with
    | read => cases picked
    | write =>
      obtain rfl := Option.some.inj picked
      exact authWrite_behaves mineFd ran
    | block => cases picked
  | requestReadIndex =>
    cases e with
    | read =>
      obtain rfl := Option.some.inj picked
      exact mngRequestIndexRead_behaves mineFd ran
    | write => cases picked
    | block => cases picked
  | requestRead =>
    cases e with
    | read =>
      obtain rfl := Option.some.inj picked
      exact mngRequestRead_behaves mineFd rfl ran
    | write => cases picked
    | block => cases picked
  | requestWrite =>
    cases e with
    | read => cases picked
    | write =>
      obtain rfl := Option.some.inj picked
      exact mngRequestWrite_behaves ran
    | block => cases picked
  | done => cases e <;> cases picked
  | error => cases e <;> cases picked

theorem mng_departure (h : runHook (place.entry o fd).onDeparture c = .ok d) :
    c.Behaves own fd free d := by
  have same : (Except.ok c : Result Conn) = .ok d → c.Behaves own fd free d := by
    intro eq
    obtain rfl := Except.ok.inj eq
    exact .refl _
  have closes : mngRequestIndexClose fd c = .ok d → c.Behaves own fd free d := by
    intro ran
    obtain ⟨x, rfl⟩ := mngRequestIndexClose_ok ran
    exact behaves_client _ _
  cases place with
  | helloRead => exact helloReadClose_behaves h
  | userpassRead => exact authReadClose_behaves h
  | requestReadIndex => exact closes h
  | requestRead => exact closes h
  | helloWrite => exact same h
  | userpassWrite => exact same h
  | requestWrite => exact same h
  | done => exact same h
  | error => exact same h

theorem mng_arrival (h : runHook (place.entry o fd).onArrival c = .ok d) :
    c.Behaves own fd free d := by
  have same : (Except.ok c : Result Conn) = .ok d → c.Behaves own fd free d := by
    intro eq
    obtain rfl := Except.ok.inj eq
    exact .refl _
  cases place with
  | helloRead => exact helloReadInit_behaves h
  | helloWrite => exact helloWriteInit_behaves h
  | userpassRead => exact authReadInit_behaves h
  | userpassWrite => exact authWriteInit_behaves h
  | requestReadIndex =>
    have h : mngRequestIndexInit o fd c = .ok d := h
    obtain ⟨x, rfl⟩ := mngRequestIndexInit_ok h
    exact behaves_client _ _
  | requestRead =>
    have h : mngRequestInit o fd c = .ok d := h
    obtain ⟨x, rfl⟩ := mngRequestInit_ok h
    exact behaves_client _ _
  | requestWrite =>
    have h : mngRequestWriteInit fd c = .ok d := h
    obtain ⟨x, rfl⟩ := mngRequestWriteInit_ok h
    exact behaves_client _ _
  | done => exact same h
  | error => exact same h

/-- An event of a management connection, with what it touched. -/
theorem mng_turn (at' : s.InMng place) (mine : s.conn.Mine own) (mineFd : own fd)
    (h : handleEvent e o fd s = .ok t) :
    ∃ more marks, s.conn.Acts own fd (place = .requestRead) more marks t.conn ∧
      more.count .threadCreated = 0 ∧ more.count .counted = 0 ∧ .ended ∉ marks ∧
      bytesOf marks = 0 ∧
      (Terminal false (t.stm.current.getD 0) → t.conn.isOpen t.conn.clientFd = false) := by
  obtain ⟨mng, current⟩ := at'
  have there : (statesOf s.conn.isSocks o fd)[place.num]? = some (place.entry o fd) := by
    rw [mng]
    exact clientMng_get o fd place
  obtain ⟨handler, ret, mid, last, picked, ran, stm, moved, ended⟩ := table_event current there h
  rw [mng] at moved ended
  have handled : s.conn.Behaves own fd (place = .requestRead) mid := mng_handler mineFd picked ran
  have crossed : s.conn.Behaves own fd (place = .requestRead) last := by
    rcases moved with ⟨-, rfl⟩ | ⟨-, entry, left, found, departed, arrived⟩
    · exact handled
    · obtain ⟨target, rfl⟩ := clientMng_state found
      obtain rfl := Option.some.inj ((clientMng_get o fd target).symm.trans found)
      exact (handled.trans (mng_departure departed)).trans (mng_arrival arrived)
  obtain ⟨more, marks, acts, plain⟩ := crossed
  rcases ended with ⟨-, fin⟩ | ⟨going, rfl⟩
  · have kind : last.isSocks = false := acts.isSocks.trans mng
    have fin : finish last.isSocks last = .ok t.conn := by
      rw [kind]
      exact fin
    obtain ⟨more', acts', alone, uncounted, -, closed, -⟩ := finish_acts (mine.acts acts) fin
    refine ⟨_, _, acts.trans acts', ?_, ?_, ?_, ?_, fun _ => closed⟩
    · rw [List.count_append, plain.threads, alone]
    · rw [List.count_append, plain.counted, uncounted]
    · rw [List.append_nil]
      exact plain.going
    · rw [List.append_nil]
      exact plain.still
  · refine ⟨more, marks, acts, plain.threads, plain.counted, plain.going, plain.still,
      fun terminal => ?_⟩
    rw [stm] at terminal
    exact absurd terminal going

end

end SocksProxy
