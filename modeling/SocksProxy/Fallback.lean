import SocksProxy.OneReply
import SocksProxy.Progress

/-!
# Falling back to the next address

What the list of a domain's addresses promises, against an assignment of an
outcome to each place in it, and when the session keeps the promise.
-/

namespace SocksProxy

open Lib

/-- What becomes of a connection to an address. -/
inductive ConnectOutcome
  | refused (e : Errno) (atOnce : e ≠ .einprogress)
  | refusedLater (e : Errno)
  | accepted
  | acceptedAtOnce

namespace ConnectOutcome

/-- What `connect` answers. -/
def answer : ConnectOutcome → Option Errno
  | refused e _ => some e
  | refusedLater _ | accepted => some .einprogress
  | acceptedAtOnce => none

/-- What `SO_ERROR` holds afterwards. -/
def soError : ConnectOutcome → Option Errno
  | refused e _ | refusedLater e => some e
  | accepted | acceptedAtOnce => none

def accepts : ConnectOutcome → Bool
  | refused _ _ | refusedLater _ => false
  | accepted | acceptedAtOnce => true

theorem answer_ne {w : ConnectOutcome} (h : w.accepts = false) : w.answer ≠ none := by
  cases w <;> simp_all [accepts, answer]

theorem soError_ne {w : ConnectOutcome} (h : w.accepts = false) : w.soError ≠ none := by
  cases w <;> simp_all [accepts, soError]

end ConnectOutcome

/-- A place in a list of addresses is what is left of the list from there. -/
abbrev Assignment := List AddrInfo → ConnectOutcome

/-- The connections that a list asks for, with their answers: one for each address up to
the first that accepts. -/
def reach (ω : Assignment) : List AddrInfo → List (List UInt8 × Option Errno)
  | [] => []
  | a :: rest => (a.addr, (ω (a :: rest)).answer) ::
      if (ω (a :: rest)).accepts then [] else reach ω rest

/-- Some address of the list accepts. -/
def Reachable (ω : Assignment) (list : List AddrInfo) : Prop :=
  ∃ left, left <:+ list ∧ left ≠ [] ∧ (ω left).accepts = true

/-- The calls of the step answer as the assignment says, and those it leaves open succeed. -/
structure Assigned (ω : Assignment) (s : Session) (l : Label) : Prop where
  opens : ∀ o, Starts s l o → (∃ n, o.socket = some n ∧ s.conn.sel.Takes n) ∧ o.setNio = true ∧
    o.connect = (ω s.conn.originResolution).answer
  tests : ∀ fd o, l = .event .write fd o → s.In .requestConnecting →
    o.getsockopt = some (ω s.conn.originResolutionCurrent).soError ∧
      ∀ a next rest, s.conn.originResolutionCurrent = a :: next :: rest →
        o.connect = (ω (next :: rest)).answer
  sends : ∀ fd o, l = .event .write fd o → s.In .requestWrite → ∃ n, o.send = some (n + 1)

def AddrInfo.Known (a : AddrInfo) : Prop := a.family = afInet ∨ a.family = afInet6

def Attempt.outcome (a : Attempt) : List UInt8 × Option Errno := (a.addr, a.result)

/-- The first of the connections were asked for, in order and on an open socket. -/
def TriedSome (asked : List (List UInt8 × Option Errno)) (attempts : List Attempt) : Prop :=
  attempts.map Attempt.outcome <+: asked ∧ ∀ attempt ∈ attempts, attempt.fd ≠ -1

/-- All of them were. -/
def TriedAll (asked : List (List UInt8 × Option Errno)) (attempts : List Attempt) : Prop :=
  attempts.map Attempt.outcome = asked ∧ ∀ attempt ∈ attempts, attempt.fd ≠ -1

/-- The events of a step that call the session to write: one, or none. -/
def Label.writes : Label → Nat
  | .event .write _ _ => 1
  | _ => 0

def writesOf (ms : List (Session × Label)) : Nat := ms.foldl (fun n p => n + p.2.writes) 0

/-- From `s` to `u` the client was sent success and nothing else, and the origin's descriptor
is that of the last attempt, which was found established. -/
def Succeeded (s u : Session) : Prop :=
  sentTo u.conn.clientFd u.conn.calls =
      sentTo s.conn.clientFd s.conn.calls ++ replyBytes .succeeded ∧
    (∃ attempt, u.conn.attempts.getLast? = some attempt ∧ attempt.fd = u.conn.originFd) ∧
    .getsockopt u.conn.originFd (some none) ∈ u.conn.calls

/-- From `s` to `u` the client was sent failures and nothing else. -/
def Refused (s u : Session) : Prop :=
  ∃ said, said ≠ [] ∧ (∀ rep ∈ said, rep ≠ SocksReplyStatus.succeeded) ∧
    sentTo u.conn.clientFd u.conn.calls =
      sentTo s.conn.clientFd s.conn.calls ++ said.flatMap replyBytes

/-- What the list promises at the end `t` of a run `ms` from `s`, where the first address was
tried. A reply that was marshalled counts as an answer: the client is watched to take it. -/
structure FallsBack (ω : Assignment) (list : List AddrInfo) (s : Session)
    (ms : List (Session × Label)) (t : Session) : Prop where
  inOrder : t.In .requestConnecting → TriedSome (reach ω list) t.conn.attempts
  patient : t.In .requestConnecting → bufferReadPtr t.conn.writeBuffer ≠ [] →
    ¬ Reachable ω list ∧ TriedAll (reach ω list) t.conn.attempts
  answered : t.In .requestWrite → TriedAll (reach ω list) t.conn.attempts
  /-- It goes on at the next write event, and there is an end to these. -/
  goesOn : t.In .requestConnecting ∨ t.In .requestWrite →
    writesOf ms ≤ list.length + 20 ∧ ∃ fd, Deliverable .write fd t.conn ∧
      ∀ o, (∀ n : Nat, o.socket = some n → t.conn.isOpen n = false) →
        ∃ u, Guarded t (.event .write fd o) u
  tries : ∀ l u, t.In .requestConnecting → Guarded t l u →
    u.In .requestConnecting ∨ u.In .requestWrite
  ends : ∀ l u, t.In .requestWrite → Assigned ω t l → Guarded t l u →
    u.In .requestWrite ∨ Reachable ω list ∧ u.In .copy ∧ Succeeded s u ∨
      ¬ Reachable ω list ∧ u.In .done ∧ Refused s u

/-- The first address accepts, though not at once; or none does, and the failure of one is
not answered while another is left. -/
def Served (ω : Assignment) (list : List AddrInfo) : Prop :=
  ω list = .accepted ∨ ¬ Reachable ω list ∧
    (list.length = 1 ∨ list.length = 2 ∧ ∃ e, ω list = .refusedLater e)

section
variable {k k' : Course} {s t u : Session} {l : Label} {ls ms : List (Session × Label)} {act : Act}
  {ω : Assignment} {list : List AddrInfo} {base : List UInt8} {n : Nat}

/-! ## The list -/

theorem reach_accepted {a : AddrInfo} {rest : List AddrInfo} (accepted : ω (a :: rest) = .accepted) :
    reach ω (a :: rest) = [(a.addr, some .einprogress)] := by
  rw [reach, accepted]
  rfl

theorem reach_one (a : AddrInfo) : reach ω [a] = [(a.addr, (ω [a]).answer)] := by
  unfold reach
  split <;> rfl

theorem reach_two {a b : AddrInfo} {e : Errno} (refused : ω [a, b] = .refusedLater e) :
    reach ω [a, b] = [(a.addr, some .einprogress), (b.addr, (ω [b]).answer)] := by
  rw [reach, refused, ← reach_one]
  rfl

theorem one_open {attempts : List Attempt} {attempt : Attempt} (one : attempts = [attempt])
    (isOpen : attempt.fd ≠ -1) : ∀ attempt ∈ attempts, attempt.fd ≠ -1 := by
  rw [one]
  exact List.forall_mem_singleton.mpr isOpen

theorem unreachable_refuses (unreachable : ¬ Reachable ω list) {left : List AddrInfo}
    (suffix : left <:+ list) (nonempty : left ≠ []) : (ω left).accepts = false := by
  by_contra accepts
  exact unreachable ⟨left, suffix, nonempty, Bool.not_eq_false _ ▸ accepts⟩

theorem writesOf_next (ms : List (Session × Label)) (s : Session) (l : Label) :
    writesOf (ms ++ [(s, l)]) = writesOf ms + l.writes := by
  simp [writesOf]

/-! ## The course of a list -/

/-- Failures to be sent. -/
def Refusals (said : List SocksReplyStatus) : Prop :=
  said ≠ [] ∧ said.length ≤ 2 ∧ ∀ rep ∈ said, rep ≠ .succeeded

/-- The course of a list that is served, after `n` write events. -/
def Course.Falls (ω : Assignment) (list : List AddrInfo) (base : List UInt8) (n : Nat) (k : Course) :
    Prop :=
  match k.phase with
  | .pending => k.base = base ∧ k.status = .succeeded ∧ k.said = [] ∧ k.left = list ∧ n = 0 ∧
      (ω list).answer = some .einprogress ∧
      ∃ a rest, list = a :: rest ∧ k.tried = [⟨k.socket, a.addr, some .einprogress⟩]
  | .failing => k.base = base ∧ ¬ Reachable ω list ∧ k.left.length < 2 ∧ n < list.length ∧
      TriedAll (reach ω list) k.tried ∧ ∃ rep, rep ≠ .succeeded ∧ k.said = [rep]
  | .writing => k.base = base ∧ TriedAll (reach ω list) k.tried ∧
      (Reachable ω list ∧ k.status = .succeeded ∧ k.said = [.succeeded] ∧ k.isOpen = true ∧
          k.established = true ∧ (∃ attempt, k.tried = [attempt] ∧ attempt.fd = k.socket) ∨
        ¬ Reachable ω list ∧ k.status ≠ .succeeded ∧ Refusals k.said)
  | .copying | .done | .failed => True
  | _ => False

/-- What `SO_ERROR` said at a test is what the assignment says of the current address. -/
theorem assigned_test {answer : Option (Option Errno)} (place : k.Place s) (pending : k.phase = .pending)
    (assigned : Assigned ω s l) (explains : Explains k s l t (.soError answer)) :
    answer = some (ω k.left).soError := by
  obtain ⟨fd, o, rfl, follows⟩ := explains
  simp only [Course.Place, pending] at place
  obtain ⟨tested, -⟩ := assigned.tests fd o rfl place.1
  rw [place.2.1.fits.left] at tested
  exact follows.symm.trans tested

theorem assigned_retest {e : Errno} {addr : List UInt8} {result : Option Errno} {taken : Bool}
    (place : k.Place s) (pending : k.phase = .pending) (assigned : Assigned ω s l)
    (explains : Explains k s l t (.retryAfter e addr result taken)) : (ω k.left).soError = some e := by
  obtain ⟨fd, o, rfl, follows, -⟩ := explains
  simp only [Course.Place, pending] at place
  obtain ⟨tested, -⟩ := assigned.tests fd o rfl place.1
  rw [place.2.1.fits.left] at tested
  exact Option.some.inj (tested.symm.trans follows)

theorem attempt_base (k : Course) (addr : List UInt8) (result : Option Errno) (taken : Bool) :
    (k.attempt addr result taken).base = k.base := by
  unfold Course.attempt
  split
  · split <;> rfl
  · rfl
  · split <;> rfl

/-- An attempt that is not taken up, or not accepted for now, fails. -/
theorem attempt_fails {result : Option Errno} (k : Course) (addr : List UInt8) (taken : Bool)
    (refused : result ≠ none) (failed : result = some .einprogress → taken = false) :
    (k.attempt addr result taken).phase = .failing ∧ (k.attempt addr result taken).base = k.base ∧
      (k.attempt addr result taken).left = k.left ∧
      (k.attempt addr result taken).tried = k.tried ++ [⟨k.originFd, addr, result⟩] ∧
      ∃ rep, rep ≠ .succeeded ∧ (k.attempt addr result taken).said = k.said ++ [rep] := by
  unfold Course.attempt
  split
  · rw [failed rfl]
    exact ⟨rfl, rfl, rfl, rfl, _, by decide, rfl⟩
  · exact ⟨rfl, rfl, rfl, rfl, _, errnoToSocks_ne _, rfl⟩
  · exact absurd rfl refused

/-- The first attempt: it waits, or the one address is refused at once. -/
theorem falls_first {addr : List UInt8} {socket : Nat} (served : Served ω list)
    (known : ∀ a ∈ list, a.Known) (nonempty : list ≠ []) (heads : Heads list addr) :
    ((({ Course.fresh .resolving base with left := list }.opened socket).attempt addr
      (ω list).answer true)).Falls ω list base 0 := by
  obtain ⟨a, rest, rfl⟩ := List.exists_cons_of_ne_nil nonempty
  obtain rfl : addr = a.addr := heads a rest rfl (known a List.mem_cons_self)
  have waits : (ω (a :: rest)).answer = some .einprogress →
      ((({ Course.fresh .resolving base with left := a :: rest }.opened socket).attempt a.addr
        (ω (a :: rest)).answer true)).Falls ω (a :: rest) base 0 := by
    intro answer
    rw [answer]
    exact ⟨rfl, rfl, rfl, rfl, rfl, answer, a, rest, rfl, rfl⟩
  rcases served with accepted | ⟨unreachable, one | ⟨-, e, later⟩⟩
  · exact waits (by rw [accepted]; rfl)
  · by_cases answer : (ω (a :: rest)).answer = some .einprogress
    · exact waits answer
    · have refused := ConnectOutcome.answer_ne
        (unreachable_refuses unreachable (List.suffix_refl _) (List.cons_ne_nil a rest))
      obtain ⟨phase, same, left, tried, rep, bad, said⟩ := attempt_fails
        ({ Course.fresh .resolving base with left := a :: rest }.opened socket) a.addr true refused
        fun eq => absurd eq answer
      obtain rfl : rest = [] := List.length_eq_zero_iff.mp (by simpa using one)
      simp only [Course.Falls, phase]
      refine ⟨same, unreachable, ?_, Nat.one_pos, ⟨?_, ?_⟩, rep, bad, said⟩
      · rw [left]
        exact (by decide : 1 < 2)
      · rw [tried, reach_one]
        rfl
      · rw [tried]
        rintro attempt (_ | ⟨_, ⟨⟩⟩)
        change ((socket : Nat) : Int) ≠ -1
        omega
  · exact waits (by rw [later]; rfl)

/-- Taking up the addresses of a domain is the first attempt. -/
theorem resolved_first {s₁ : Session} (place : k.Place s) (resolving : s.In .requestResolv)
    (assigned : Assigned ω s l) (taken : Guarded s l s₁) (entered : s₁.In .requestConnecting) :
    ∃ n addr, Heads s.conn.originResolution addr ∧
      Course.Place ((({ Course.fresh .resolving k.base with
        left := s.conn.originResolution }).opened n).attempt addr
          (ω s.conn.originResolution).answer true) s₁ := by
  have phase : k.phase = .resolving := by
    have covers := place_covers place resolving
    revert covers
    cases k.phase <;> simp [Phase.covers]
  have fresh := early_fresh place (Or.inr phase)
  obtain ⟨act, k', step, place', explains⟩ := step_advances place taken
  have covers := place_covers place' entered
  cases step with
  | idle =>
    rw [phase] at covers
    cases covers
  | unresolved => cases covers
  | noSocket left =>
    obtain ⟨o, starts, none'⟩ := explains
    obtain ⟨⟨n, opened, -⟩, -⟩ := assigned.1 o starts
    cases none'.symm.trans opened
  | noNio left n =>
    obtain ⟨o, m, starts, -, blocking⟩ := explains
    obtain ⟨-, nio, -⟩ := assigned.1 o starts
    cases blocking.symm.trans nio
  | @first left addr n result took early heads =>
    obtain ⟨o, m, starts, opened, -, connect, took_eq, listed⟩ := explains
    obtain ⟨⟨m', opened', valid⟩, -, answer⟩ := assigned.1 o starts
    obtain rfl : m = m' := Option.some.inj (opened.symm.trans opened')
    obtain rfl : took = true := took_eq.trans (decide_eq_true valid)
    obtain rfl := listed resolving
    rw [connect.symm.trans answer, fresh, phase] at place'
    exact ⟨n, addr, heads, place'⟩
  | request _ other | breakDown _ other | refuse _ other | resolve other =>
    cases phase.symm.trans other
  | retry _ _ other | giveUp other =>
    rcases other with other | other <;> cases phase.symm.trans other
  | retryAfter _ _ _ other | unanswered other | established other | refused _ other | copy other =>
    cases phase.symm.trans other
  | close other => cases covers
  | fail other => cases covers

/-- The attempt on the second of two addresses: the first has the socket registered, so it
is not taken up again, and the reply of failure follows the last address. -/
theorem falls_second {e : Errno} {a next : AddrInfo} {rest : List AddrInfo} {addr : List UInt8}
    {result : Option Errno} {taken : Bool} (good : k.Falls ω list base n) (place : k.Place s)
    (served : Served ω list) (known : ∀ a ∈ list, a.Known) (assigned : Assigned ω s l)
    (pending : k.phase = .pending) (left : k.left = a :: next :: rest)
    (heads : Heads (next :: rest) addr)
    (explains : Explains k s l t (.retryAfter e addr result taken)) (status : SocksReplyStatus) :
    ({ k with left := next :: rest, status := status }.attempt addr result taken).Falls ω list base
      (n + l.writes) := by
  have refusedNow := assigned_retest place pending assigned explains
  obtain ⟨fd, o, rfl, -, follows, took⟩ := explains
  simp only [Course.Falls, pending] at good
  obtain ⟨same, -, said, here, rfl, answer, a', rest', eq, tried⟩ := good
  simp only [Course.Place, pending] at place
  obtain ⟨at', tries, watches⟩ := place
  simp only [Course.Watches, pending] at watches
  obtain ⟨-, -, registered, isOpen, -⟩ := watches
  rw [here] at refusedNow
  obtain rfl : list = a :: next :: rest := here.symm.trans left
  obtain ⟨rfl, rfl⟩ := List.cons.inj eq
  obtain ⟨unreachable, rfl, e', later⟩ : ¬ Reachable ω (a :: next :: rest) ∧ rest = [] ∧
      ∃ e, ω (a :: next :: rest) = .refusedLater e := by
    rcases served with accepted | ⟨unreachable, one | ⟨two, later⟩⟩
    · rw [accepted] at refusedNow
      cases refusedNow
    · cases one
    · exact ⟨unreachable, List.length_eq_zero_iff.mp (by simpa using two), later⟩
  have originFd : s.conn.originFd = k.socket := by
    rw [tries.fits.originFd, Course.originFd, if_pos isOpen]
  have socket := tries.fits.socket isOpen
  have refuses := unreachable_refuses unreachable (List.suffix_cons a [next]) (List.cons_ne_nil _ _)
  have result_eq : result = (ω [next]).answer := by
    rw [follows, connectResult, tries.fits.footing.originOpen (by omega), if_pos rfl]
    exact (assigned.tests fd o rfl at').2 a next [] (tries.fits.left.trans left)
  obtain rfl : taken = false := by
    rw [took]
    refine decide_eq_false fun takes => ?_
    cases registered.symm.trans (registrable_socket tries.fits.footing takes).2
  obtain ⟨phase, base', left', tried', rep, bad, said'⟩ :=
    attempt_fails { k with left := [next], status := status } addr false
      (result_eq ▸ ConnectOutcome.answer_ne refuses) fun _ => rfl
  obtain rfl : addr = next.addr := heads next [] rfl (known next (by simp))
  simp only [Course.Falls, phase]
  refine ⟨base'.trans same, unreachable, ?_, Nat.one_lt_two, ⟨?_, ?_⟩, rep, bad, ?_⟩
  · rw [left']
    exact Nat.one_lt_two
  · rw [tried', tried, reach_two later, result_eq]
    rfl
  · rw [tried', tried]
    intro attempt member
    have same : attempt.fd = k.socket := by
      rcases List.mem_cons.mp member with rfl | member
      · rfl
      · obtain rfl := List.mem_singleton.mp member
        exact tries.fits.originFd.symm.trans originFd
    omega
  · rw [said', said]
    rfl

/-- The one attempt of a course that still waits has its socket. -/
theorem pending_socket (place : k.Place s) (pending : k.phase = .pending) :
    k.isOpen = true ∧ k.socket ≠ -1 := by
  simp only [Course.Place, pending] at place
  obtain ⟨-, tries, watches⟩ := place
  simp only [Course.Watches, pending] at watches
  have socket := tries.fits.socket watches.2.2.2.1
  exact ⟨watches.2.2.2.1, by omega⟩

theorem falls_established (good : k.Falls ω list base n) (place : k.Place s) (served : Served ω list)
    (pending : k.phase = .pending) (tested : (ω k.left).soError = none) :
    ({ k.answer .succeeded with established := true } : Course).Falls ω list base (n + l.writes) := by
  obtain ⟨isOpen, socket⟩ := pending_socket place pending
  simp only [Course.Falls, pending] at good
  obtain ⟨same, -, said, left, -, -, a, rest, rfl, tried⟩ := good
  rw [left] at tested
  have accepted : ω (a :: rest) = .accepted := by
    refine served.resolve_right fun refused => ?_
    exact ConnectOutcome.soError_ne
      (unreachable_refuses refused.1 (List.suffix_refl _) (List.cons_ne_nil a rest)) tested
  refine ⟨same, ⟨?_, ?_⟩, .inl ⟨⟨_, List.suffix_refl _, List.cons_ne_nil a rest, ?_⟩, rfl, ?_, isOpen,
    rfl, _, tried, rfl⟩⟩
  · change k.tried.map _ = _
    rw [tried, reach_accepted accepted]
    rfl
  · exact one_open tried socket
  · rw [accepted]
    rfl
  · change k.said ++ [_] = _
    rw [said]
    rfl

/-- The one address of a list is refused. -/
theorem falls_refused {e : Errno} (good : k.Falls ω list base n) (place : k.Place s)
    (served : Served ω list) (pending : k.phase = .pending) (short : k.left.length < 2)
    (tested : (ω k.left).soError = some e) :
    (k.answer (errnoToSocks e)).Falls ω list base (n + l.writes) := by
  obtain ⟨-, socket⟩ := pending_socket place pending
  simp only [Course.Falls, pending] at good
  obtain ⟨same, -, said, left, -, answer, a, rest, rfl, tried⟩ := good
  rw [left] at tested short
  obtain rfl : rest = [] := List.length_eq_zero_iff.mp (by rw [List.length_cons] at short; omega)
  have unreachable : ¬ Reachable ω [a] := by
    rcases served with accepted | refused
    · rw [accepted] at tested
      cases tested
    · exact refused.1
  refine ⟨same, ⟨?_, ?_⟩, .inr ⟨unreachable, errnoToSocks_ne e, ?_⟩⟩
  · change k.tried.map _ = _
    rw [tried, reach_one, answer]
    rfl
  · exact one_open tried socket
  · change Refusals (k.said ++ [_])
    rw [said]
    exact ⟨by simp, by simp, by simp [errnoToSocks_ne e]⟩

theorem falls_step (good : k.Falls ω list base n) (place : k.Place s) (served : Served ω list)
    (known : ∀ a ∈ list, a.Known) (assigned : Assigned ω s l) (step : k.Step act k')
    (explains : Explains k s l t act) : k'.Falls ω list base (n + l.writes) := by
  have early : ¬ (k.phase = .reading ∨ k.phase = .resolving) := by
    rintro (phase | phase) <;> simp only [Course.Falls, phase] at good
  have waits : k.phase = .pending → k.status = .succeeded := fun pending => by
    simp only [Course.Falls, pending] at good
    exact good.2.1
  have last : k.phase = .failing → k.left.length < 2 := fun failing => by
    simp only [Course.Falls, failing] at good
    exact good.2.2.1
  cases step with
  | idle =>
    have silent : k.phase = .pending ∨ k.phase = .failing → l.writes = 0 := by
      intro phase
      have at' : s.In .requestConnecting := by
        rcases phase with phase | phase <;>
          · simp only [Course.Place, phase] at place
            exact place.1
      unfold Label.writes
      split
      · exact absurd at' (explains _ _ rfl)
      · rfl
    cases phase : k.phase <;> simp only [Course.Falls, phase] at good ⊢
    case pending => rwa [silent (.inl phase)]
    case failing => rwa [silent (.inr phase)]
    case writing => exact good
  | request _ phase | breakDown _ phase => simp only [Course.Falls, phase] at good
  | refuse _ phase | resolve phase => exact absurd (Or.inl phase) early
  | unresolved phase => exact absurd (Or.inr phase) early
  | noSocket _ phase | noNio _ _ phase | first _ _ _ phase => exact absurd phase early
  | retry _ _ phase bad left =>
    rcases phase with pending | failing
    · exact absurd (waits pending) bad
    · have short := last failing
      rw [left] at short
      exact absurd short (by simp)
  | retryAfter error result taken pending _ left heads =>
    exact falls_second good place served known assigned pending left heads explains _
  | giveUp phase bad =>
    rcases phase with pending | failing
    · exact absurd (waits pending) bad
    · simp only [Course.Falls, failing] at good
      obtain ⟨same, unreachable, -, -, all, rep, failed, said⟩ := good
      refine ⟨same, all, .inr ⟨unreachable, bad, ?_⟩⟩
      change Refusals (k.said ++ [k.status])
      rw [said]
      exact ⟨by simp, by simp, by simp [failed, bad]⟩
  | unanswered pending => cases assigned_test place pending assigned explains
  | established pending =>
    have tested := Option.some.inj (assigned_test place pending assigned explains)
    exact falls_established good place served pending tested.symm
  | refused error pending _ short =>
    have tested := Option.some.inj (assigned_test place pending assigned explains)
    exact falls_refused good place served pending short tested.symm
  | copy | close | fail => trivial

/-! ## The write events -/

theorem writes_le (l : Label) : l.writes ≤ 1 := by
  unfold Label.writes
  split <;> decide

/-- A reply that is being sent is sent on: the session does not fail, and each write event
takes something. -/
theorem writing_sends (phase : k.phase = .writing) (place : k.Place s) (assigned : Assigned ω s l)
    (step : Guarded s l t) : ¬ t.In .error ∧ (t.In .requestWrite →
      (sentTo s.conn.clientFd s.conn.calls).length + l.writes ≤
        (sentTo t.conn.clientFd t.conn.calls).length) := by
  simp only [Course.Place, phase] at place
  obtain ⟨at', writes⟩ := place
  cases l with
  | resolved answer fd =>
    obtain rfl := Except.ok.inj step.2
    exact ⟨fun failed => absurd (in_unique at' failed) (by decide), fun _ => Nat.le_refl _⟩
  | env w =>
    obtain rfl := Except.ok.inj step.2
    exact ⟨fun failed => absurd (in_unique at' failed) (by decide), fun _ => Nat.le_refl _⟩
  | event e fd o =>
    cases e with
    | read =>
      obtain ⟨handler, mid, next, picked, -⟩ := socks_event at' step.2
      cases picked
    | block =>
      obtain ⟨handler, mid, next, picked, -⟩ := socks_event (s := takeJob fd s) at' step.2
      cases picked
    | write =>
      obtain ⟨handler, mid, next, picked, ran, stm, entered⟩ := socks_event at' step.2
      obtain rfl : requestWrite o fd = handler := Option.some.inj picked
      obtain rfl := writes_delivered writes step.1.1
      obtain ⟨m, sends⟩ := assigned.sends _ o rfl at'
      have there : ∀ {state}, t.In state → state.num = next.num := fun inside => by
        have current := inside.2
        rw [stm] at current
        exact (Option.some.inj current).symm
      rcases requestWrite_ok ran with ⟨none', -⟩ |
          ⟨bytes, sent, ⟨more, num, rfl⟩ | ⟨-, conn, -, ⟨-, num, -⟩ | ⟨-, num, -⟩⟩⟩
      · rw [sentBytes, sends] at none'
        cases none'
      · obtain rfl : next = .requestWrite := SocksV5State.num_inj num
        refine ⟨fun failed => absurd (there failed) (by decide), fun _ => ?_⟩
        rw [enters_stays entered (by decide)]
        change _ ≤ (sentTo s.conn.clientFd (s.conn.calls ++ [_])).length
        rw [sentTo_append, List.length_append]
        have some' : 1 ≤ bytes.length := by
          rw [sentBytes, sends] at sent
          rw [← Option.some.inj sent, List.length_take]
          have left : bufferReadPtr s.conn.writeBuffer ≠ [] := fun none' => more (by
            change bufferReadPtr (bufferTake s.conn.writeBuffer _) = []
            rw [bufferTake_readPtr, none', List.drop_nil])
          have := List.length_pos_iff.mpr left
          omega
        simpa [sentTo, Call.sent, Label.writes] using some'
      · exact ⟨fun failed => absurd ((there failed).trans num) (by decide),
          fun inside => absurd ((there inside).trans num) (by decide)⟩
      · exact ⟨fun failed => absurd ((there failed).trans num) (by decide),
          fun inside => absurd ((there inside).trans num) (by decide)⟩

/-- As many write events as addresses are for the attempts, and each of the others sends. -/
def Course.Paced (list : List AddrInfo) (base : List UInt8) (n : Nat) (k : Course) (t : Session) :
    Prop :=
  k.phase = .writing → n + base.length ≤ list.length + (sentTo t.conn.clientFd t.conn.calls).length

theorem paced_step (good : k.Falls ω list base n) (paced : k.Paced list base n s) (place : k.Place s)
    (assigned : Assigned ω s l) (step : k.Step act k') (place' : k'.Place t) (taken : Guarded s l t) :
    k'.Paced list base (n + l.writes) t := by
  intro writing
  -- the last attempt is answered by the event after it
  have answered : k'.base = k.base → k.phase = .pending ∨ k.phase = .failing →
      n + l.writes + base.length ≤ list.length + (sentTo t.conn.clientFd t.conn.calls).length := by
    intro same phase
    have started : k.base = base ∧ n < list.length := by
      rcases phase with phase | phase <;> simp only [Course.Falls, phase] at good
      · obtain ⟨same, -, -, -, rfl, -, a, rest, rfl, -⟩ := good
        exact ⟨same, by simp⟩
      · exact ⟨good.1, good.2.2.2.1⟩
    simp only [Course.Place, writing] at place'
    have ahead := place'.2.ahead.length_le
    rw [same, started.1] at ahead
    have := writes_le l
    omega
  cases step with
  | idle =>
    have before := paced writing
    simp only [Course.Place, writing] at place'
    have := (writing_sends writing place assigned taken).2 place'.1
    omega
  | request | breakDown | resolve | noSocket | noNio | copy | close | fail => cases writing
  | refuse _ phase | unresolved phase => simp only [Course.Falls, phase] at good
  | first | retry | retryAfter =>
    obtain phase | phase | phase := attempt_phase _ _ _ _
    all_goals cases writing.symm.trans phase
  | giveUp phase => exact answered rfl phase
  | unanswered phase | established phase | refused _ phase => exact answered rfl (.inl phase)

/-! ## The run -/

/-- A session on the course of a list that is served, after the steps `ms`. -/
def Falling (ω : Assignment) (list : List AddrInfo) (base : List UInt8) (ms : List (Session × Label))
    (t : Session) : Prop :=
  ∃ k : Course, k.Place t ∧ k.Falls ω list base (writesOf ms) ∧ k.Paced list base (writesOf ms) t

theorem falling_run (init : Falling ω list base [] s) (served : Served ω list)
    (known : ∀ a ∈ list, a.Known) (run : Run Guarded s ms t)
    (assigned : ∀ p ∈ ms, Assigned ω p.1 p.2) : Falling ω list base ms t := by
  induction run with
  | start => exact init
  | @next ms t u l _ step ih =>
    obtain ⟨k, place, good, paced⟩ := ih fun p member => assigned p (List.mem_append_left _ member)
    have here := assigned (t, l) (by simp)
    obtain ⟨act, k', follows, place', explains⟩ := step_advances place step
    refine ⟨k', place', ?_, ?_⟩ <;> rw [writesOf_next]
    · exact falls_step good place served known here follows explains
    · exact paced_step good paced place here follows place' step

/-- A course in REQUEST_CONNECTING waits for an attempt or has failed. -/
theorem falls_connecting (place : k.Place t) (good : k.Falls ω list base n)
    (at' : t.In .requestConnecting) : k.phase = .pending ∨ k.phase = .failing := by
  have covers := place_covers place at'
  cases phase : k.phase <;> rw [phase] at covers <;> simp_all [Phase.covers, Course.Falls]

/-- What is found queued and tried in REQUEST_CONNECTING. -/
theorem falls_trying (place : k.Place t) (good : k.Falls ω list base n)
    (at' : t.In .requestConnecting) : TriedSome (reach ω list) t.conn.attempts ∧
      (bufferReadPtr t.conn.writeBuffer ≠ [] →
        ¬ Reachable ω list ∧ TriedAll (reach ω list) t.conn.attempts) := by
  rcases falls_connecting place good at' with phase | phase
  · have socket := (pending_socket place phase).2
    simp only [Course.Place, phase] at place
    simp only [Course.Falls, phase] at good
    obtain ⟨-, tries, -⟩ := place
    obtain ⟨-, -, said, -, -, answer, a, rest, rfl, tried⟩ := good
    have attempts : t.conn.attempts = k.tried := tries.fits.tried
    have queue := tries.waits.queue.unread
    rw [said] at queue
    refine ⟨⟨?_, ?_⟩, fun queued => absurd queue queued⟩
    · rw [attempts, tried, reach, answer]
      exact List.prefix_append [_] _
    · exact one_open (attempts.trans tried) socket
  · simp only [Course.Place, phase] at place
    simp only [Course.Falls, phase] at good
    obtain ⟨-, unreachable, -, -, all, -⟩ := good
    have attempts : t.conn.attempts = k.tried := place.2.1.fits.tried
    rw [attempts]
    exact ⟨⟨all.1 ▸ List.prefix_rfl, all.2⟩, fun _ => ⟨unreachable, all⟩⟩

/-- The write events of a session that is not through with its list are few. -/
theorem falls_bound (place : k.Place t) (good : k.Falls ω list base n) (paced : k.Paced list base n t)
    (going : t.In .requestConnecting ∨ t.In .requestWrite) : n ≤ list.length + 20 := by
  rcases going with at' | at'
  · rcases falls_connecting place good at' with phase | phase <;>
      simp only [Course.Falls, phase] at good
    · omega
    · omega
  · have phase := writing_phase place at'
    have sent := paced phase
    simp only [Course.Place, phase] at place
    simp only [Course.Falls, phase] at good
    have bytes := congrArg List.length place.2.bytes
    obtain ⟨rfl, -, outcome⟩ := good
    have few : k.said.length ≤ 2 := by
      rcases outcome with ⟨-, -, said, -⟩ | ⟨-, -, said⟩
      · rw [said]
        decide
      · exact said.2.1
    rw [List.length_append, List.length_append, repliesOf, replies_length, List.length_take] at bytes
    omega

theorem place_trying (place : k.Place t)
    (phase : k.phase = .pending ∨ k.phase = .immediate ∨ k.phase = .failing) :
    t.In .requestConnecting := by
  rcases phase with phase | phase | phase <;>
    · simp only [Course.Place, phase] at place
      exact place.1

/-- Between attempts a step leads to the next one, or to the reply. -/
theorem falls_tries (place : k.Place t) (good : k.Falls ω list base n)
    (at' : t.In .requestConnecting) (step : Guarded t l u) :
    u.In .requestConnecting ∨ u.In .requestWrite := by
  obtain ⟨act, k', follows, place', -⟩ := step_advances place step
  have before := falls_connecting place good at'
  have here : ∀ {phase}, k.phase = phase → phase = .pending ∨ phase = .failing :=
    fun phase => phase ▸ before
  cases follows with
  | idle =>
    rcases before with phase | phase <;>
      · simp only [Course.Place, phase] at place'
        exact .inl place'.1
  | retry | retryAfter => exact .inl (place_trying place' (attempt_phase _ _ _ _))
  | giveUp | unanswered | established | refused => exact .inr place'.1
  | request _ phase | breakDown _ phase | refuse _ phase | resolve phase | unresolved phase =>
    rcases here phase with eq | eq <;> cases eq
  | copy phase => rcases here phase with eq | eq <;> cases eq
  | noSocket _ phase | noNio _ _ phase | first _ _ _ phase =>
    rcases phase with phase | phase <;> rcases here phase with eq | eq <;> cases eq
  | close phase =>
    rcases phase with phase | phase | ⟨phase, -⟩ <;> rcases here phase with eq | eq <;> cases eq
  | fail phase =>
    rcases phase with phase | phase | phase <;> rcases here phase with eq | eq <;> cases eq

/-- A reply that was sent is the one that the list promises. -/
theorem falls_ends (place : k.Place t) (good : k.Falls ω list (sentTo s.conn.clientFd s.conn.calls) n)
    (at' : t.In .requestWrite) (assigned : Assigned ω t l) (step : Guarded t l u) :
    u.In .requestWrite ∨ Reachable ω list ∧ u.In .copy ∧ Succeeded s u ∨
      ¬ Reachable ω list ∧ u.In .done ∧ Refused s u := by
  have phase := writing_phase place at'
  have sends := (writing_sends phase place assigned step).1
  obtain ⟨act, k', follows, place', explains⟩ := step_advances place step
  simp only [Course.Falls, phase] at good
  obtain ⟨same, -, outcome⟩ := good
  rcases writing_step phase follows with ⟨rfl, rfl⟩ | ⟨rfl, ok, rfl⟩ | ⟨rfl, bad, rfl⟩ | ⟨rfl, rfl⟩
  · simp only [Course.Place, phase] at place'
    exact .inl place'.1
  · obtain ⟨copying, fits, -⟩ := place'
    have told : sentTo u.conn.clientFd u.conn.calls = k.base ++ repliesOf k.said := explains phase
    rcases outcome with ⟨reachable, -, said, isOpen, established, attempt, tried, socket⟩ |
        ⟨-, bad, -⟩
    · have originFd := fits.originFd
      simp only [Course.originFd, isOpen, if_true] at originFd
      have attempts : u.conn.attempts = k.tried := fits.tried
      refine .inr (.inl ⟨reachable, copying, ?_, ⟨attempt, ?_, socket.trans originFd.symm⟩, ?_⟩)
      · rw [told, same, said]
        rfl
      · rw [attempts, tried]
        rfl
      · rw [originFd]
        exact (fits.established established).2
    · exact absurd ok bad
  · obtain ⟨done, -⟩ := place'
    have told : sentTo u.conn.clientFd u.conn.calls = k.base ++ repliesOf k.said := explains phase
    rcases outcome with ⟨-, ok, -⟩ | ⟨unreachable, -, nonempty, few, failed⟩
    · exact absurd ok bad
    · refine .inr (.inr ⟨unreachable, done, k.said, nonempty, failed, ?_⟩)
      rw [told, same, repliesOf, List.take_of_length_le (by unfold repliesRoom; omega)]
  · exact absurd place'.1 sends

theorem falling_falls (falling : Falling ω list (sentTo s.conn.clientFd s.conn.calls) ms t)
    (table : t.stm.maxState = SocksV5State.error.num) : FallsBack ω list s ms t := by
  obtain ⟨k, place, good, paced⟩ := falling
  constructor
  · exact fun at' => (falls_trying place good at').1
  · exact fun at' => (falls_trying place good at').2
  · intro at'
    have phase := writing_phase place at'
    simp only [Course.Falls, phase] at good
    simp only [Course.Place, phase] at place
    have attempts : t.conn.attempts = k.tried := place.2.fits.tried
    rw [attempts]
    exact good.2.1
  · intro going
    refine ⟨falls_bound place good paced going, ?_⟩
    have waits : k.phase = .pending ∨ k.phase = .failing ∨ k.phase = .writing := by
      rcases going with at' | at'
      · exact (falls_connecting place good at').imp_right .inl
      · exact .inr (.inr (writing_phase place at'))
    obtain ⟨fd, delivered, goes⟩ := place_goes place table waits
    exact ⟨fd, delivered, fun o fresh => (goes o).imp fun _ fired => ⟨⟨delivered, fresh⟩, fired⟩⟩
  · exact fun l u at' step => falls_tries place good at' step
  · exact fun l u at' assigned step => falls_ends place good at' assigned step

/-- A domain's addresses are tried as the list promises, and the client is answered
accordingly, if the list is one that is served. -/
theorem falls_back (start : JustAccepted true s) {r r' : Session} (before : Run Guarded s ls r)
    (resolving : r.In .requestResolv) (nonempty : r.conn.originResolution ≠ [])
    (known : ∀ a ∈ r.conn.originResolution, a.Known) (taken : Guarded r l r')
    (entered : r'.In .requestConnecting) (after : Run Guarded r' ms t)
    (assigned : ∀ p ∈ (r, l) :: ms, Assigned ω p.1 p.2)
    (served : Served ω r.conn.originResolution) :
    FallsBack ω r.conn.originResolution r' ms t := by
  obtain ⟨k, place⟩ := run_place start before
  obtain ⟨socket, addr, heads, place'⟩ :=
    resolved_first place resolving (assigned (r, l) List.mem_cons_self) taken entered
  have table := maxState_run start (.append (.next before taken) after)
  refine falling_falls (falling_run ⟨_, place', ?_, ?_⟩ served known after fun p member =>
    assigned p (List.mem_cons_of_mem _ member)) table
  · rw [(place_tries place' entered).waits.sent, attempt_base]
    exact falls_first served known nonempty heads
  · intro writing
    obtain phase | phase | phase := attempt_phase _ _ _ _
    all_goals cases writing.symm.trans phase

end

/-! ## The first client -/

/-- The first client asked for a domain, and its resolver found `answer`. -/
def firstResolved (answer : List AddrInfo) : Option Session :=
  (firstClient (greeting ++ [received domainRequest])).map fun s =>
    resolverEnds answer (5, s.conn.self) s

theorem firstResolved_run {answer : List AddrInfo} {r : Session} (h : firstResolved answer = some r) :
    ∃ s ls, JustAccepted true s ∧ Run Guarded s ls r ∧ r.In .requestResolv ∧
      r.conn.originResolution = answer := by
  obtain ⟨r₀, played, rfl⟩ := Option.map_eq_some_iff.mp h
  obtain ⟨s, ls, start, run, -⟩ := firstClient_run played
  have facts : (firstClient (greeting ++ [received domainRequest])).all (fun s =>
      decide ((5, s.conn.self) ∈ s.conn.resolvers ∧ s.In .requestResolv)) = true := by decide +kernel
  rw [played, Option.all_some, decide_eq_true_eq] at facts
  have step : Guarded r₀ (.resolved answer 5) (resolverEnds answer (5, r₀.conn.self) r₀) :=
    ⟨facts.1, rfl⟩
  exact ⟨s, _, start, .next run step, facts.2, rfl⟩

/-- The block event that opens the origin socket, descriptor 6. -/
def opening : Outcome := { Outcome.fine with socket := some 6 }

theorem assigned_opening {ω : Assignment} {s : Session} (takes : s.conn.sel.Takes 6)
    (answer : (ω s.conn.originResolution).answer = some .einprogress) :
    Assigned ω s (.event .block 5 opening) := by
  refine ⟨fun o starts => ?_, fun _ _ label => (nomatch label), fun _ _ label => (nomatch label)⟩
  rcases starts with ⟨fd, p, label, -⟩ | ⟨fd, label, -⟩
  · exact nomatch label
  · obtain ⟨-, -, rfl⟩ := Label.event.inj label
    exact ⟨⟨6, rfl, takes⟩, rfl, answer.symm⟩

theorem assigned_write {ω : Assignment} {s : Session} {fd : Int} {o : Outcome} {left : List AddrInfo}
    (current : s.conn.originResolutionCurrent = left)
    (tested : o.getsockopt = some (ω left).soError)
    (next : ∀ a next rest, left = a :: next :: rest → o.connect = (ω (next :: rest)).answer)
    (sends : ∃ n, o.send = some (n + 1)) : Assigned ω s (.event .write fd o) := by
  subst current
  refine ⟨fun o starts => ?_, fun fd o label _ => ?_, fun fd o label _ => ?_⟩
  · rcases starts with ⟨fd, p, label, -⟩ | ⟨fd, label, -⟩ <;> exact nomatch label
  · obtain ⟨-, -, rfl⟩ := Label.event.inj label
    exact ⟨tested, next⟩
  · obtain ⟨-, -, rfl⟩ := Label.event.inj label
    exact sends

/-- The one address accepts: its connection is found established, and the reply is next. -/
theorem falls_back_first : ∃ r r' ms t, firstResolved [⟨afInet, [1]⟩] = some r ∧
    play r [(.block, 5, opening)] = some r' ∧ play r' [(.write, 6, .fine)] = some t ∧
    t.In .requestWrite ∧ Run Guarded r' ms t ∧
    FallsBack (fun _ => .accepted) r.conn.originResolution r' ms t := by
  have plays : (firstResolved [⟨afInet, [1]⟩]).any (fun r => decide (r.conn.sel.Takes 6) &&
      (play r [(.block, 5, opening)]).any fun r' => decide (r'.In .requestConnecting ∧
        r'.conn.originResolutionCurrent = [⟨afInet, [1]⟩]) &&
          (play r' [(.write, 6, .fine)]).any fun t => decide (t.In .requestWrite)) = true := by
    decide +kernel
  obtain ⟨r, resolved, plays⟩ := (Option.any_eq_true _ _).mp plays
  obtain ⟨takes, plays⟩ := (Bool.and_eq_true _ _).mp plays
  obtain ⟨r', opened, plays⟩ := (Option.any_eq_true _ _).mp plays
  obtain ⟨facts, plays⟩ := (Bool.and_eq_true _ _).mp plays
  obtain ⟨entered, current⟩ := of_decide_eq_true facts
  obtain ⟨t, tested, writing⟩ := (Option.any_eq_true _ _).mp plays
  obtain ⟨s, ls, start, before, resolving, list⟩ := firstResolved_run resolved
  obtain ⟨v, taken, rest⟩ := play_cons opened
  obtain rfl : v = r' := Option.some.inj rest
  obtain ⟨w, step, rest⟩ := play_cons tested
  obtain rfl : w = t := Option.some.inj rest
  refine ⟨r, v, _, w, resolved, opened, tested, of_decide_eq_true writing, .single step,
    falls_back start before resolving ?_ ?_ taken entered (.single step) ?_ (Or.inl rfl)⟩
  · rw [list]
    exact List.cons_ne_nil _ _
  · rw [list]
    simp [AddrInfo.Known]
  · intro p member
    simp only [List.mem_cons, List.not_mem_nil, or_false] at member
    rcases member with rfl | rfl
    · exact assigned_opening (of_decide_eq_true takes) rfl
    · exact assigned_write current rfl (fun _ _ _ list => nomatch list) ⟨_, rfl⟩

/-- Two addresses; the first is refused later, the second would accept. -/
def twoAddresses : List AddrInfo := [⟨afInet, [1]⟩, ⟨afInet, [2]⟩]

def secondAccepts : Assignment
  | [_] => .accepted
  | _ => .refusedLater .econnrefused

/-- The attempt on the second address fails to be registered, and the client is refused. -/
theorem second_not_reached : ∃ s ls r l r' ms t, JustAccepted true s ∧ Run Guarded s ls r ∧
    r.In .requestResolv ∧ r.conn.originResolution = twoAddresses ∧ Guarded r l r' ∧
    r'.In .requestConnecting ∧ Run Guarded r' ms t ∧
    (∀ p ∈ (r, l) :: ms, Assigned secondAccepts p.1 p.2) ∧
    ¬ FallsBack secondAccepts twoAddresses r' ms t := by
  have plays : (firstResolved twoAddresses).any (fun r => decide (r.conn.sel.Takes 6) &&
      (play r [(.block, 5, opening)]).any fun r' => decide (r'.In .requestConnecting ∧
        r'.conn.originResolutionCurrent = twoAddresses) &&
          (play r' [(.write, 6, { Outcome.fine with getsockopt := some (some .econnrefused) })]).any
            fun v => decide (v.conn.originResolutionCurrent = [⟨afInet, [2]⟩]) &&
              (play v [(.write, 5, .fine)]).any fun t => decide (t.In .requestWrite) &&
                (play t [(.write, 5, .fine)]).any fun u => decide (u.In .done)) = true := by
    decide +kernel
  obtain ⟨r, resolved, plays⟩ := (Option.any_eq_true _ _).mp plays
  obtain ⟨takes, plays⟩ := (Bool.and_eq_true _ _).mp plays
  obtain ⟨r', opened, plays⟩ := (Option.any_eq_true _ _).mp plays
  obtain ⟨facts, plays⟩ := (Bool.and_eq_true _ _).mp plays
  obtain ⟨entered, current⟩ := of_decide_eq_true facts
  obtain ⟨v, tested, plays⟩ := (Option.any_eq_true _ _).mp plays
  obtain ⟨last, plays⟩ := (Bool.and_eq_true _ _).mp plays
  obtain ⟨t, given, plays⟩ := (Option.any_eq_true _ _).mp plays
  obtain ⟨writing, plays⟩ := (Bool.and_eq_true _ _).mp plays
  obtain ⟨u, ended, done⟩ := (Option.any_eq_true _ _).mp plays
  obtain ⟨s, ls, start, before, resolving, list⟩ := firstResolved_run resolved
  obtain ⟨w, taken, rest⟩ := play_cons opened
  obtain rfl : w = r' := Option.some.inj rest
  obtain ⟨x, second, rest⟩ := play_cons tested
  obtain rfl : x = v := Option.some.inj rest
  obtain ⟨y, third, rest⟩ := play_cons given
  obtain rfl : y = t := Option.some.inj rest
  obtain ⟨z, fourth, rest⟩ := play_cons ended
  obtain rfl : z = u := Option.some.inj rest
  have writing := of_decide_eq_true writing
  have done := of_decide_eq_true done
  refine ⟨s, ls, r, _, w, _, y, start, before, resolving, list, taken, entered,
    .next (.single second) third, ?_, fun falls => ?_⟩
  · intro p member
    simp only [List.cons_append, List.nil_append, List.mem_cons, List.not_mem_nil, or_false] at member
    rcases member with rfl | rfl | rfl
    · exact assigned_opening (of_decide_eq_true takes) (by rw [list]; rfl)
    · refine assigned_write current rfl (fun a next rest list => ?_) ⟨_, rfl⟩
      rw [← (List.cons.inj list).2]
      rfl
    · exact assigned_write (of_decide_eq_true last) rfl (fun _ _ _ list => nomatch list) ⟨_, rfl⟩
  · have sends : Assigned secondAccepts y (.event .write 5 .fine) := by
      refine ⟨fun o starts => ?_, fun _ _ _ trying => ?_, fun fd o label _ => ?_⟩
      · rcases starts with ⟨fd, p, label, -⟩ | ⟨fd, label, -⟩ <;> exact nomatch label
      · exact absurd (in_unique trying writing) (by decide)
      · obtain ⟨-, -, rfl⟩ := Label.event.inj label
        exact ⟨_, rfl⟩
    have reachable : Reachable secondAccepts twoAddresses :=
      ⟨[⟨afInet, [2]⟩], List.suffix_cons _ _, List.cons_ne_nil _ _, rfl⟩
    rcases falls.ends _ _ writing sends fourth with still | ⟨-, copying, -⟩ | ⟨unreachable, -⟩
    · exact absurd (in_unique still done) (by decide)
    · exact absurd (in_unique copying done) (by decide)
    · exact unreachable reachable

end SocksProxy
