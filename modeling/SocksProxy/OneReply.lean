import SocksProxy.Replies

/-!
# One reply, and it tells the truth

A request is answered once when its one attempt is pending: what `SO_ERROR` then
says is the reply. Every other way to fail queues the reply again.
-/

namespace SocksProxy

open Lib

/-- The answer of `getsockopt` at a write event of REQUEST_CONNECTING. -/
def testOf (p : Session × Label) : Option (Option (Option Errno)) :=
  match p.2 with
  | .event .write _ o => if p.1.In .requestConnecting then some o.getsockopt else none
  | _ => none

/-- What an attempt whose connection was tested came to. -/
def attemptStatus : Option (Option Errno) → SocksReplyStatus
  | none => .generalSocksServerFailure
  | some none => .succeeded
  | some (some e) => errnoToSocks e

def Socks5.attempts (c : Socks5) : List Attempt := c.calls.filterMap Call.attempt

/-- When the request starts its connection the origin's socket opens, the selector takes it
and the connection is in progress; and one that is found refused has no address after it. -/
def AcceptedAtFirst (s : Session) (l : Label) : Prop :=
  (∀ o, Starts s l o → ∃ n, o.socket = some n ∧ s.conn.sel.Takes n ∧ o.setNio = true ∧
      o.connect = some .einprogress) ∧
    ∀ fd o e, l = .event .write fd o → s.In .requestConnecting → o.getsockopt = some (some e) →
      s.conn.originResolutionCurrent.length < 2

/-- The reply `rep` is what became of the request: the status of its one attempt, or
a failure that came before it. -/
def Truthful (steps : List (Session × Label)) (c : Conn) (rep : SocksReplyStatus) : Prop :=
  c.attempts = [] ∧ rep ≠ .succeeded ∨
    ∃ attempt answer, c.attempts = [attempt] ∧ steps.filterMap testOf = [answer] ∧
      rep = attemptStatus answer ∧
      (rep = .succeeded → attempt.fd = c.originFd ∧ c.sel.Registered c.originFd)

section
variable {k k' : Course} {s t u : Session} {l : Label} {ls ms : List (Session × Label)} {act : Act}

/-- A course that has queued no reply, or one. -/
def Course.Once (base : List UInt8) (steps : List (Session × Label)) (k : Course) : Prop :=
  match k.phase with
  | .talking | .immediate | .failing => False
  | .reading | .resolving => k.base = base ∧ steps.filterMap testOf = []
  | .pending => k.base = base ∧ k.status = .succeeded ∧ steps.filterMap testOf = [] ∧
      ∃ attempt, k.tried = [attempt] ∧ attempt.fd = k.socket
  | .writing => k.base = base ∧ ∃ rep, k.said = [rep] ∧
      (k.tried = [] ∧ rep ≠ .succeeded ∨
        ∃ attempt answer, k.tried = [attempt] ∧ steps.filterMap testOf = [answer] ∧
          rep = attemptStatus answer ∧
          (rep = .succeeded → attempt.fd = k.socket ∧ k.isOpen = true ∧ k.registered = true))
  | _ => True

theorem testOf_none (h : ∀ fd o, l = .event .write fd o → ¬ s.In .requestConnecting) :
    testOf (s, l) = none := by
  unfold testOf
  split
  · rename_i fd o label
    exact if_neg (h fd o label)
  · rfl

/-- Outside of REQUEST_CONNECTING nothing is tested. -/
theorem testOf_early (place : k.Place s)
    (early : k.phase = .reading ∨ k.phase = .resolving) : testOf (s, l) = none := by
  refine testOf_none fun _ _ _ at' => ?_
  have covers := place_covers place at'
  rcases early with phase | phase <;>
    · rw [phase] at covers
      cases covers

/-- A course that has not started its connection has nothing to show. -/
theorem early_fresh (place : k.Place s) (early : k.phase = .reading ∨ k.phase = .resolving) :
    k = .fresh k.phase k.base := by
  rcases early with phase | phase <;>
    · rw [phase]
      simp only [Course.Place, phase] at place
      exact place.2.2.1

/-- The write event that tests the connection. -/
theorem testOf_pending {answer : Option (Option Errno)} (place : k.Place s)
    (pending : k.phase = .pending) (explains : Explains k s l t (.soError answer)) :
    testOf (s, l) = some answer := by
  obtain ⟨fd, o, rfl, follows⟩ := explains
  simp only [Course.Place, pending] at place
  exact (if_pos place.1).trans (congrArg some follows)

theorem once_start {base : List UInt8} {steps : List (Session × Label)} {left : List AddrInfo}
    {addr : List UInt8} {result : Option Errno} {taken : Bool} (n : Nat) (once : k.Once base steps)
    (place : k.Place s) (early : k.phase = .reading ∨ k.phase = .resolving)
    (accepts : AcceptedAtFirst s l) (explains : Explains k s l t (.first left addr result taken)) :
    (({ k with left := left }.opened n).attempt addr result taken).Once base
      (steps ++ [(s, l)]) := by
  obtain ⟨o, m, starts, opened, nio, connect, taken_eq, -⟩ := explains
  obtain ⟨m', opened', valid, -, connect'⟩ := accepts.1 o starts
  obtain rfl : m = m' := Option.some.inj (opened.symm.trans opened')
  obtain rfl : result = some .einprogress := connect.symm.trans connect'
  obtain rfl : taken = true := taken_eq.trans (decide_eq_true valid)
  have fresh := early_fresh place early
  have quiet : steps.filterMap testOf = [] ∧ k.base = base := by
    rcases early with phase | phase <;>
      · simp only [Course.Once, phase] at once
        exact ⟨once.2, once.1⟩
  refine ⟨quiet.2, ?_, ?_, ⟨n, addr, some .einprogress⟩, ?_, rfl⟩
  · change k.status = .succeeded
    rw [fresh]
    rfl
  · rw [List.filterMap_append, quiet.1]
    simp [testOf_early place early]
  · change k.tried ++ [_] = _
    rw [fresh]
    rfl

/-- The test of the one attempt is the reply. -/
theorem once_answer {base : List UInt8} {steps : List (Session × Label)}
    {answer : Option (Option Errno)} (once : k.Once base steps) (place : k.Place s)
    (pending : k.phase = .pending) (explains : Explains k s l t (.soError answer))
    (established : Bool) :
    ({ k.answer (attemptStatus answer) with established := established } : Course).Once base
      (steps ++ [(s, l)]) := by
  have tested := testOf_pending place pending explains
  simp only [Course.Once, pending] at once
  obtain ⟨same, good, quiet, attempt, tried, socket⟩ := once
  simp only [Course.Place, pending] at place
  obtain ⟨-, -, watches⟩ := place
  simp only [Course.Watches, pending] at watches
  obtain ⟨-, -, registered, isOpen, silent⟩ := watches
  refine ⟨same, attemptStatus answer, ?_, Or.inr ⟨attempt, answer, tried, ?_, rfl, fun _ =>
    ⟨socket, isOpen, registered⟩⟩⟩
  · change k.said ++ [_] = _
    rw [silent good]
    rfl
  · rw [List.filterMap_append, quiet]
    simp [tested]

theorem once_step {base : List UInt8} {steps : List (Session × Label)} (once : k.Once base steps)
    (place : k.Place s) (accepts : AcceptedAtFirst s l) (step : k.Step act k')
    (explains : Explains k s l t act) : k'.Once base (steps ++ [(s, l)]) := by
  have notFailing : k.phase ≠ .failing := fun failing => by
    simp only [Course.Once, failing] at once
  have pendingGood : k.phase = .pending → k.status = .succeeded := fun pending => by
    simp only [Course.Once, pending] at once
    exact once.2.1
  have untested : testOf (s, l) = none → (steps ++ [(s, l)]).filterMap testOf =
      steps.filterMap testOf := fun none' => by
    rw [List.filterMap_append]
    simp [none']
  cases step with
  | idle =>
    unfold Course.Once at once ⊢
    rw [untested (testOf_none explains)]
    exact once
  | request base' talking | breakDown base' talking =>
    simp only [Course.Once, talking] at once
  | refuse status reading bad =>
    have fresh := early_fresh place (Or.inl reading)
    simp only [Course.Once, reading] at once
    refine ⟨once.1, status, ?_, Or.inl ⟨?_, bad⟩⟩
    · change k.said ++ [_] = _
      rw [fresh]
      rfl
    · change k.tried = []
      rw [fresh]
      rfl
  | resolve reading =>
    simp only [Course.Once, reading] at once ⊢
    rw [untested (testOf_early place (Or.inl reading))]
    exact once
  | unresolved resolving =>
    have fresh := early_fresh place (Or.inr resolving)
    simp only [Course.Once, resolving] at once
    refine ⟨once.1, .generalSocksServerFailure, ?_, Or.inl ⟨?_, by decide⟩⟩
    · change k.said ++ [_] = _
      rw [fresh]
      rfl
    · change k.tried = []
      rw [fresh]
      rfl
  | noSocket left early =>
    obtain ⟨o, starts, none'⟩ := explains
    obtain ⟨n, opened, -⟩ := accepts.1 o starts
    exact nomatch none'.symm.trans opened
  | noNio left n early =>
    obtain ⟨o, m, starts, -, blocking⟩ := explains
    obtain ⟨-, -, -, nio, -⟩ := accepts.1 o starts
    exact nomatch blocking.symm.trans nio
  | first n result taken early heads => exact once_start n once place early accepts explains
  | retry result taken phase bad =>
    rcases phase with pending | failing
    · exact absurd (pendingGood pending) bad
    · exact absurd failing notFailing
  | retryAfter error result taken pending good list heads =>
    obtain ⟨fd, o, label, refused, -⟩ := explains
    simp only [Course.Place, pending] at place
    have short := accepts.2 fd o error label place.1 refused
    rw [place.2.1.fits.left, list, List.length_cons, List.length_cons] at short
    omega
  | giveUp phase bad =>
    rcases phase with pending | failing
    · exact absurd (pendingGood pending) bad
    · exact absurd failing notFailing
  | unanswered pending good => exact once_answer once place pending explains k.established
  | established pending good => exact once_answer once place pending explains true
  | refused error pending good => exact once_answer once place pending explains k.established
  | copy | close | fail => trivial

/-- From REQUEST_READ on, the client is sent the one reply that its request earned. -/
theorem one_reply (start : JustAccepted true s) {r : Session} (before : Run Guarded s ls r)
    (reading : r.In .requestRead) (after : Run Guarded r ms t)
    (accepts : ∀ p ∈ ms, AcceptedAtFirst p.1 p.2) (writing : t.In .requestWrite)
    (step : Guarded t l u) (left : u.In .copy ∨ u.In .done) :
    ∃ rep, sentTo u.conn.clientFd u.conn.calls =
        sentTo r.conn.clientFd r.conn.calls ++ replyBytes rep ∧ Truthful ms t.conn rep := by
  obtain ⟨k, place⟩ := run_place start before
  have init : k.Once (sentTo r.conn.clientFd r.conn.calls) [] := by
    have covers := place_covers place reading
    cases phase : k.phase <;> rw [phase] at covers <;> simp only [Phase.covers, reduceCtorEq,
      decide_false, decide_true, List.mem_cons, List.not_mem_nil, or_self, Bool.false_eq_true] at covers
    · simp only [Course.Place, phase] at place
      simp only [Course.Once, phase]
      exact ⟨place.2.2.2.2.1.sent.symm, rfl⟩
    · simp only [Course.Once, phase]
  obtain ⟨k', place', once⟩ := place_run (C := AcceptedAtFirst)
    (G := Course.Once (sentTo r.conn.clientFd r.conn.calls))
    (fun once place accepts step _ explains => once_step once place accepts step explains)
    place init after accepts
  have phase := writing_phase place' writing
  simp only [Course.Once, phase] at once
  obtain ⟨base, rep, said, truth⟩ := once
  refine ⟨rep, ?_, ?_⟩
  · obtain ⟨act, k'', follows, place'', explains⟩ := step_advances place' step
    have told : k'.phase = .writing → sentTo u.conn.clientFd u.conn.calls =
        k'.base ++ repliesOf k'.said := by
      rcases writing_step phase follows with ⟨rfl, rfl⟩ | ⟨rfl, -, rfl⟩ | ⟨rfl, -, rfl⟩ | ⟨rfl, rfl⟩
      · simp only [Course.Place, phase] at place''
        rcases left with at' | at' <;> exact absurd (in_unique place''.1 at') (by decide)
      · exact explains
      · exact explains
      · rcases left with at' | at' <;> exact absurd (in_unique place''.1 at') (by decide)
    rw [told phase, base, said]
    simp [repliesOf, repliesRoom]
  · simp only [Course.Place, phase] at place'
    obtain ⟨-, writes⟩ := place'
    have tried : t.conn.attempts = k'.tried := writes.fits.tried
    rcases truth with ⟨none', bad⟩ | ⟨attempt, answer, one, tested, status, good⟩
    · exact Or.inl ⟨tried.trans none', bad⟩
    · refine Or.inr ⟨attempt, answer, tried.trans one, tested, status, fun succeeded => ?_⟩
      obtain ⟨socket, isOpen, registered⟩ := good succeeded
      have here : t.conn.originFd = k'.socket := by
        have originFd := writes.fits.originFd
        simp only [Course.originFd, isOpen, if_true] at originFd
        exact originFd
      rw [here]
      exact ⟨socket, (writes.fits.footing.origin registered).registered⟩

end

/-! ## The first client -/

/-- A write finds the connection established; any other event could open descriptor 6. -/
def opensInProgress (s : Session) (e : Event) (_fd : Int) (o : Outcome) : Bool :=
  match e with
  | .write => decide (o.getsockopt = some none)
  | .read | .block => decide (o.socket = some 6 ∧ s.conn.sel.Takes 6 ∧ o.setNio = true ∧
      o.connect = some .einprogress)

theorem accepted_opening {s : Session} {e : Event} {fd : Int} {o : Outcome}
    (good : opensInProgress s e fd o = true) : AcceptedAtFirst s (.event e fd o) := by
  constructor
  · intro o' starts
    rcases starts with ⟨_, _, label, -⟩ | ⟨_, label, -⟩
    all_goals
      obtain ⟨rfl, -, rfl⟩ := Label.event.inj label
      obtain ⟨opened, takes, nio, connect⟩ := of_decide_eq_true good
      exact ⟨6, opened, takes, nio, connect⟩
  · intro fd' o' e' label _ refused
    obtain ⟨rfl, -, rfl⟩ := Label.event.inj label
    cases (of_decide_eq_true good).symm.trans refused

/-- The run of a client in REQUEST_READ to its reply and past it. -/
theorem request_played {es : List (Event × Int × Outcome)} {e : Event × Int × Outcome}
    {r t u : Session} (opened : firstClient greeting = some r) (played : play r es = some t)
    (last : play t [e] = some u) :
    ∃ s ls ms, JustAccepted true s ∧ Run Guarded s ls r ∧ Run Guarded r ms t ∧
      ms.map (·.2) = (es.map fun e => .event e.1 e.2.1 e.2.2) ∧
      Guarded t (.event e.1 e.2.1 e.2.2) u := by
  obtain ⟨s, ls, start, before, -⟩ := firstClient_run opened
  obtain ⟨ms, after, labels⟩ := play_run played
  obtain ⟨v, step, rest⟩ := play_cons last
  obtain rfl : v = u := Option.some.inj rest
  exact ⟨s, ls, ms, start, before, after, labels, step⟩

theorem one_reply_first : ∃ r t u ms rep, firstClient greeting = some r ∧
    play r [receivedOpening connectRequest, (.write, 6, .fine)] = some t ∧
    play t [(.write, 5, .fine)] = some u ∧ Run Guarded r ms t ∧
    sentTo u.conn.clientFd u.conn.calls =
      sentTo r.conn.clientFd r.conn.calls ++ replyBytes rep ∧ Truthful ms t.conn rep := by
  have plays : (firstClient greeting).any (fun r => decide (r.In .requestRead) &&
      checks opensInProgress r [receivedOpening connectRequest, (.write, 6, .fine)] &&
      (play r [receivedOpening connectRequest, (.write, 6, .fine)]).any fun t =>
        decide (t.In .requestWrite) &&
          (play t [(.write, 5, .fine)]).any fun u => decide (u.In .copy)) = true := by decide +kernel
  obtain ⟨r, opened, plays⟩ := (Option.any_eq_true _ _).mp plays
  obtain ⟨first, plays⟩ := (Bool.and_eq_true _ _).mp plays
  obtain ⟨reading, checked⟩ := (Bool.and_eq_true _ _).mp first
  obtain ⟨t, played, plays⟩ := (Option.any_eq_true _ _).mp plays
  obtain ⟨writing, plays⟩ := (Bool.and_eq_true _ _).mp plays
  obtain ⟨u, last, copying⟩ := (Option.any_eq_true _ _).mp plays
  obtain ⟨s, ls, -, start, before, -, -, step⟩ := request_played opened played last
  obtain ⟨ms, after, -, good⟩ := play_checked played checked
  have accepts : ∀ p ∈ ms, AcceptedAtFirst p.1 p.2 := by
    intro p member
    obtain ⟨e, fd, o, label, opens⟩ := good p member
    rw [label]
    exact accepted_opening opens
  obtain ⟨rep, told, truth⟩ := one_reply start before (of_decide_eq_true reading) after accepts
    (of_decide_eq_true writing) step (Or.inl (of_decide_eq_true copying))
  exact ⟨r, t, u, ms, rep, opened, played, last, after, told, truth⟩

/-- The origin refuses the connection at once: the client is told so twice. -/
def refusedAtOnce : List (Event × Int × Outcome) :=
  [(.read, 5, { Outcome.fine with
    recv := some connectRequest, socket := some 6, connect := some .econnrefused }), (.write, 5, .fine)]

theorem two_replies : ∃ s ls r ms t l u, JustAccepted true s ∧ Run Guarded s ls r ∧
    r.In .requestRead ∧ Run Guarded r ms t ∧ t.In .requestWrite ∧ Guarded t l u ∧ u.In .done ∧
    sentTo u.conn.clientFd u.conn.calls = sentTo r.conn.clientFd r.conn.calls ++
      replyBytes .connectionRefused ++ replyBytes .connectionRefused ∧
    ¬ ∃ rep, sentTo u.conn.clientFd u.conn.calls =
      sentTo r.conn.clientFd r.conn.calls ++ replyBytes rep := by
  have plays : (firstClient greeting).any (fun r => decide (r.In .requestRead) &&
      (play r refusedAtOnce).any fun t => decide (t.In .requestWrite) &&
        (play t [(.write, 5, .fine)]).any fun u => decide (u.In .done) &&
          decide (sentTo u.conn.clientFd u.conn.calls = sentTo r.conn.clientFd r.conn.calls ++
            replyBytes .connectionRefused ++ replyBytes .connectionRefused)) = true := by
    decide +kernel
  obtain ⟨r, opened, plays⟩ := (Option.any_eq_true _ _).mp plays
  obtain ⟨reading, plays⟩ := (Bool.and_eq_true _ _).mp plays
  obtain ⟨t, played, plays⟩ := (Option.any_eq_true _ _).mp plays
  obtain ⟨writing, plays⟩ := (Bool.and_eq_true _ _).mp plays
  obtain ⟨u, last, facts⟩ := (Option.any_eq_true _ _).mp plays
  simp only [Bool.and_eq_true, decide_eq_true_eq] at facts
  obtain ⟨done, twice⟩ := facts
  obtain ⟨s, ls, ms, start, before, after, labels, step⟩ := request_played opened played last
  refine ⟨s, ls, r, ms, t, _, u, start, before, of_decide_eq_true reading, after,
    of_decide_eq_true writing, step, done, twice, ?_⟩
  rintro ⟨rep, once⟩
  have lengths := congrArg List.length (twice.symm.trans once)
  simp only [List.length_append, replyBytes, List.length_cons, List.length_nil] at lengths
  omega

end SocksProxy
