import SocksProxy.Replies
import SocksProxy.Whole

/-!
# The metrics of the whole server

What each event counts, added up over a run of the server, is what the metrics hold. A
connection is found established once, by the `getsockopt` after which it leaves
REQUEST_CONNECTING.
-/

namespace SocksProxy

open Lib

/-! ## What an event counts -/

/-- The session that an event is for, before it and after it. -/
def Process.observed (p : Process) : Happening → Option (Session × Session)
  | .event e fd o _ =>
    match p.called fd with
    | some x =>
      match SocksProxy.fire (.event e fd o) (view x p.world) with
      | .ok t => some (view x p.world, t)
      | .error _ => none
    | none => none
  | .resolved _ _ _ => none

/-- The calls of the event. -/
def callsOf (r : Session × Session) : List Call := r.2.conn.calls.drop r.1.conn.calls.length

/-- The connections whose `SO_ERROR` was found clear. -/
def established (r : Session × Session) : Nat := (callsOf r).countP Call.isFound

def attempted (r : Session × Session) : Nat := (callsOf r).countP Call.isConnect

def checked (r : Session × Session) : Nat := (callsOf r).countP Call.isCheck

/-- The bytes that the relay received or sent. -/
def carried (r : Session × Session) : Nat := if r.1.In .copy then movedBy (callsOf r) else 0

/-- The relay ended. -/
def finished (r : Session × Session) : Nat := if r.1.In .copy ∧ r.2.In .done then 1 else 0

/-- The connection was found established. -/
def Socks5.wasFound (c : Socks5) : Bool := c.calls.any Call.isFound

/-- The relay ended of a connection that was never found established. -/
def uncounted (r : Session × Session) : Nat :=
  if r.1.In .copy ∧ r.2.In .done ∧ ¬ r.2.conn.wasFound then 1 else 0

/-- A connection that was found established ended elsewhere than in its relay. -/
def abandoned (r : Session × Session) : Nat :=
  if r.2.conn.wasFound ∧ .released ∈ r.2.conn.calls ∧ ¬ (r.1.In .copy ∧ r.2.In .done) then 1
  else 0

/-- What the events of a run count. -/
def total (f : Session × Session → Nat) (ls : List (Process × Happening)) : Nat :=
  (ls.map fun q => ((q.1.observed q.2).map f).getD 0).sum

theorem total_snoc (f : Session × Session → Nat) (ls : List (Process × Happening))
    (q : Process × Happening) :
    total f (ls ++ [q]) = total f ls + ((q.1.observed q.2).map f).getD 0 := by
  unfold total
  rw [List.map_append, List.sum_append, List.map_singleton, List.sum_singleton]

/-! ## Marks -/

/-- The metrics after some marks. -/
structure Metrics.Advanced (m : Metrics) (marks : List Mark) (m' : Metrics) : Prop where
  connections : m'.historicConnections = m.historicConnections + .ofNat (marks.count .connected)
  attempts : m'.historicConnectionsAttempts =
    m.historicConnectionsAttempts + .ofNat (marks.count .attempt)
  auths : m'.historicAuthAttempts = m.historicAuthAttempts + .ofNat (marks.count .auth)
  bytes : m'.historicByteTransfer = m.historicByteTransfer + .ofNat (bytesOf marks)
  concurrent : m'.concurrentConnections = m.concurrentConnections +
    .ofNat (marks.count .connected) - .ofNat (marks.count .ended)

theorem advanced_apply (m : Metrics) (mark : Mark) : m.Advanced [mark] (mark.apply m) := by
  cases mark <;> constructor <;>
    simp [Mark.apply, countConnection, countRead, countWrite, bytesOf, Mark.bytes]

theorem Metrics.Advanced.trans {m m' m'' : Metrics} {xs ys : List Mark} (h : m.Advanced xs m')
    (k : m'.Advanced ys m'') : m.Advanced (xs ++ ys) m'' where
  connections := by
    rw [k.connections, h.connections, List.count_append, UInt64.ofNat_add, UInt64.add_assoc]
  attempts := by rw [k.attempts, h.attempts, List.count_append, UInt64.ofNat_add, UInt64.add_assoc]
  auths := by rw [k.auths, h.auths, List.count_append, UInt64.ofNat_add, UInt64.add_assoc]
  bytes := by rw [k.bytes, h.bytes, bytesOf_append, UInt64.ofNat_add, UInt64.add_assoc]
  concurrent := by
    rw [k.concurrent, h.concurrent, List.count_append, List.count_append, UInt64.ofNat_add,
      UInt64.ofNat_add]
    grind

/-- Without a connection counted, the maximum stays. -/
theorem marked_max (m : Metrics) {marks : List Mark} (none' : marks.count .connected = 0) :
    (m.marked marks).maxConcurrentConnections = m.maxConcurrentConnections := by
  induction marks generalizing m with
  | nil => rfl
  | cons mark marks ih =>
    rw [List.count_cons, Nat.add_eq_zero_iff] at none'
    have same : (mark.apply m).maxConcurrentConnections = m.maxConcurrentConnections := by
      cases mark
      case connected => simp at none'
      all_goals rfl
    exact (ih (mark.apply m) none'.1).trans same

/-- The one connection that is counted raises the maximum. -/
theorem marked_rise (m : Metrics) {marks : List Mark} (one : marks.count .connected = 1)
    (going : marks.count .ended = 0) : (m.marked marks).maxConcurrentConnections =
      if m.concurrentConnections + 1 > m.maxConcurrentConnections then m.concurrentConnections + 1
      else m.maxConcurrentConnections := by
  induction marks generalizing m with
  | nil => cases one
  | cons mark marks ih =>
    rw [List.count_cons] at one going
    by_cases connected : mark = .connected
    · subst connected
      have rest : marks.count .connected = 0 := by
        rw [beq_self_eq_true, if_pos rfl] at one
        omega
      exact marked_max _ rest
    · have other : (mark == Mark.connected) = false := beq_eq_false_iff_ne.mpr connected
      rw [other] at one
      have same : (mark.apply m).concurrentConnections = m.concurrentConnections ∧
          (mark.apply m).maxConcurrentConnections = m.maxConcurrentConnections := by
        cases mark
        case connected => exact absurd rfl connected
        case ended => simp at going
        all_goals exact ⟨rfl, rfl⟩
      have last := ih (mark.apply m) one (by omega)
      rw [same.1, same.2] at last
      exact last

theorem marked_advanced (m : Metrics) (marks : List Mark) : m.Advanced marks (m.marked marks) := by
  induction marks generalizing m with
  | nil => constructor <;> simp [bytesOf]
  | cons mark marks ih => exact (advanced_apply m mark).trans (ih (mark.apply m))

section
variable {others socks mng : List Nat} {dissectors : UInt8} {heap : Heap} {users admins : UserTable}
  {base : Int → Bool} {p p' : Process} {l : Happening} {ls : List (Process × Happening)}
  {k k' : Course} {act : Act} {s t : Session} {e : Event} {o : Outcome} {fd : Int} {key : Nat}
  {x : StateMachine × Socks5} {more : List Call} {marks : List Mark}

/-! ## Found once -/

/-- The session is past its attempts. -/
def Session.Late (s : Session) : Prop :=
  s.In .requestWrite ∨ s.In .copy ∨ s.In .done ∨ s.In .error

def Phase.late : Phase → Bool
  | .writing | .copying | .done | .failed => true
  | _ => false

theorem late_place (place : k.Place s) : s.Late ↔ k.phase.late = true := by
  constructor
  · have covered : ∀ {state}, s.In state → k.phase.covers state = true := place_covers place
    rintro (at' | at' | at' | at')
    all_goals
      have covers := covered at'
      revert covers
      cases k.phase <;> simp [Phase.covers, Phase.late]
  · intro late
    cases phase : k.phase <;> simp only [Course.Place, phase] at place
    case writing => exact .inl place.1
    case copying => exact .inr (.inl place.1)
    case done => exact .inr (.inr (.inl place.1))
    case failed => exact .inr (.inr (.inr place.1))
    all_goals
      rw [phase] at late
      cases late

/-- A course that is past its attempts stays there. -/
theorem late_step (follows : k.Step act k') (late : k.phase.late = true) : k'.phase.late = true := by
  have early : ∀ {phase}, k.phase = phase → phase.late = true := fun at' => at' ▸ late
  cases follows with
  | idle => exact late
  | copy | close | fail => rfl
  | request _ at' | breakDown _ at' | refuse _ at' | resolve at' | unresolved at' => cases early at'
  | retryAfter _ _ _ at' | unanswered at' | established at' | refused _ at' => cases early at'
  | noSocket _ at' | noNio _ _ at' | first _ _ _ at' | retry _ _ at' | giveUp at' =>
    rcases at' with at' | at' <;> cases early at'

/-- The attempts are followed by an answer. -/
theorem attempting_step (follows : k.Step act k') (before : k.phase.covers .requestConnecting = true)
    (moved : k'.phase.covers .requestConnecting = false) : k'.phase.late = true := by
  have still : ∀ (k : Course) addr result taken,
      (k.attempt addr result taken).phase.covers .requestConnecting = true := by
    intro k addr result taken
    rcases attempt_phase k addr result taken with phase | phase | phase <;> rw [phase] <;> rfl
  cases follows with
  | idle => exact absurd (before.symm.trans moved) (by decide)
  | first | retry | retryAfter => exact absurd ((still ..).symm.trans moved) (by decide)
  | giveUp | unanswered | established | refused | copy | close | fail => rfl
  | request _ at' | breakDown _ at' | refuse _ at' | resolve at' | unresolved at' =>
    rw [at'] at before
    cases before
  | noSocket | noNio => cases moved

theorem found_pos (c : Socks5) : c.wasFound = true ↔ 0 < c.calls.countP Call.isFound := by
  rw [List.countP_pos_iff, Socks5.wasFound, List.any_eq_true]

theorem found_zero (c : Socks5) : ¬ c.wasFound = true ↔ c.calls.countP Call.isFound = 0 := by
  rw [found_pos, Nat.pos_iff_ne_zero, not_not]

theorem found_count {c : Socks5} (once : c.calls.countP Call.isFound ≤ 1) :
    c.wasFound.toNat = c.calls.countP Call.isFound := by
  by_cases found : c.wasFound = true
  · have some' := (found_pos c).mp found
    rw [found, Bool.toNat_true]
    omega
  · rw [(found_zero c).mp found, Bool.not_eq_true _ |>.mp found, Bool.toNat_false]

/-- A connection is found established once, and then it is past its attempts. -/
structure Session.Once (s : Session) : Prop where
  once : s.conn.calls.countP Call.isFound ≤ 1
  late : s.conn.wasFound = true → s.Late

theorem once_framed {d : Conn} (once : s.Once) (f : s.conn.Framed d) :
    (⟨s.stm, d⟩ : Session).Once := by
  obtain ⟨answer, record⟩ := f.record
  have calls : d.calls = s.conn.calls := by rw [record]
  have socks : d.isSocks = s.conn.isSocks := by rw [record]
  refine ⟨by rw [calls]; exact once.once, fun found => ?_⟩
  have late := once.late (by rwa [Socks5.wasFound, ← calls])
  unfold Session.Late Session.In at late ⊢
  rw [socks]
  exact late

theorem turns_calls (turns : p.Turns key x e fd o more marks t) :
    t.conn.calls = x.2.calls ++ more := by
  have calls := turns.acts.calls
  rw [(taken_world e fd (view x p.world)).2.1] at calls
  exact calls

theorem turns_once (sound : p.Sound base) (turns : p.Turns key x e fd o more marks t)
    (step : Guarded (view x p.world) (.event e fd o) t) (once : (view x p.world).Once) : t.Once := by
  obtain ⟨-, -, live⟩ := sound.live key x turns.there
  have calls := turns_calls turns
  have bound := turns.counts.counted
  rw [turns.acts.counts.counted] at bound
  have before : x.2.calls.countP Call.isFound ≤ 1 := once.once
  rcases live with ⟨k, place, -, going⟩ | serves
  · obtain ⟨act, k', follows, place', -⟩ := step_advances place step
    have lateness : (view x p.world).Late → t.Late := fun late =>
      (late_place place').mpr (late_step follows ((late_place place).mp late))
    by_cases here : x.2.wasFound = true
    · -- past its attempts, it is not found again
      have late := once.late here
      have elsewhere : ¬ (view x p.world).In .requestConnecting := by
        intro at'
        rcases late with there | there | there | there
        all_goals exact absurd (in_unique there at') (by decide)
      rw [if_neg fun both => elsewhere both.1] at bound
      refine ⟨?_, fun _ => lateness late⟩
      rw [calls, List.countP_append]
      omega
    · have none' := (found_zero x.2).mp here
      refine ⟨?_, fun found => ?_⟩
      · rw [calls, List.countP_append]
        split at bound <;> omega
      · have some' := (found_pos t.conn.toSocks5).mp found
        rw [calls, List.countP_append, none'] at some'
        split at bound
        · rename_i moved
          refine (late_place place').mpr (attempting_step follows (place_covers place moved.1) ?_)
          by_contra still
          rw [Bool.not_eq_false] at still
          apply moved.2
          revert still
          cases phase : k'.phase <;> simp only [Course.Place, phase] at place'
          case pending | immediate | failing => exact fun _ => place'.1
          all_goals exact fun still => absurd still (by decide)
        · omega
  · have off : ∀ state, ¬ (view x p.world).In state :=
      fun state at' => absurd (at'.1.symm.trans serves.mng) (by decide)
    rw [if_neg fun both => off _ both.1] at bound
    have here : ¬ x.2.wasFound = true := by
      intro found
      rcases once.late found with there | there | there | there
      all_goals exact off _ there
    have none' : t.conn.calls.countP Call.isFound = 0 := by
      rw [calls, List.countP_append, (found_zero x.2).mp here]
      omega
    exact ⟨by omega, fun found => absurd found ((found_zero t.conn.toSocks5).mpr none')⟩

/-! ## A step of the server -/

/-- What a step counts. -/
def Process.gain (p : Process) (l : Happening) (f : Session × Session → Nat) : Nat :=
  ((p.observed l).map f).getD 0

theorem total_step (f : Session × Session → Nat) (p : Process) (l : Happening) :
    total f (ls ++ [(p, l)]) = total f ls + p.gain l f := total_snoc f ls (p, l)

theorem turn_observed (a : Accepted) (called : p.called fd = some x)
    (step : Guarded (view x p.world) (.event e fd o) t) :
    p.observed (.event e fd o a) = some (view x p.world, t) := by
  have fired : SocksProxy.fire (.event e fd o) (view x p.world) = .ok t := step.2
  simp only [Process.observed, called, fired]

theorem passive_observed (a : Accepted) (passive : p.called fd = none) :
    p.observed (.event e fd o a) = none := by
  simp only [Process.observed, passive]

theorem turns_callsOf (turns : p.Turns key x e fd o more marks t) :
    callsOf (view x p.world, t) = more := by
  unfold callsOf
  rw [turns_calls turns]
  exact List.drop_left

/-- The marks of an event are what it counts. -/
structure Process.Marks (p : Process) (l : Happening) (marks : List Mark) : Prop where
  connections : marks.count .connected = p.gain l established
  attempts : marks.count .attempt = p.gain l attempted
  auths : marks.count .auth = p.gain l checked
  bytes : bytesOf marks = p.gain l carried
  ended : marks.count .ended = p.gain l finished
  single : marks.count .connected ≤ 1 ∧ (marks.count .connected = 1 → marks.count .ended = 0)

theorem turns_marks (a : Accepted) (called : p.called fd = some x)
    (step : Guarded (view x p.world) (.event e fd o) t) (turns : p.Turns key x e fd o more marks t) :
    p.Marks (.event e fd o a) marks := by
  have gain : ∀ f, p.gain (.event e fd o a) f = f (view x p.world, t) := by
    intro f
    unfold Process.gain
    rw [turn_observed a called step]
    rfl
  have calls := turns_callsOf turns
  have marked := turns.acts.counts
  have bound := turns.counts.counted
  rw [marked.counted] at bound
  constructor
  · rw [gain, established, calls, marked.connected]
  · rw [gain, attempted, calls, marked.attempts]
  · rw [gain, checked, calls, marked.auths]
  · rw [gain, carried, calls]
    exact turns.counts.bytes
  · rw [gain]
    exact turns.counts.ended
  · rw [marked.connected, turns.counts.ended]
    split at bound
    · rename_i connecting
      refine ⟨bound, fun _ => if_neg fun copying => ?_⟩
      exact absurd (in_unique connecting.1 copying.1) (by decide)
    · exact ⟨by omega, fun one => by omega⟩

/-- A step of the server advances the metrics by what it counts. -/
theorem did_advanced (sound : p.Sound base) (did : p.Did l p') :
    ∃ marks, p'.world.metrics = p.world.metrics.marked marks ∧ p.Marks l marks := by
  have nothing : ∀ {l}, p.observed l = none → p.Marks l [] := by
    intro l silent
    have gain : ∀ f, p.gain l f = 0 := by
      intro f
      unfold Process.gain
      rw [silent]
      rfl
    constructor <;> simp [gain, bytesOf]
  cases did with
  | @turn e fd o a key x more marks t called step turns =>
    refine ⟨marks, ?_, turns_marks a called step turns⟩
    change t.conn.metrics = p.world.metrics.marked marks
    rw [turns.acts.metrics, (taken_world e fd (view x p.world)).2.2]
    split <;> rfl
  | @arrival isSocks fd o a w s passive offers accepted =>
    obtain ⟨n, addr, self, rest, sel, -, -, -, world, -⟩ := passiveAccept_accepted sound.span accepted
    refine ⟨[], ?_, nothing (passive_observed a passive)⟩
    change w.metrics = p.world.metrics
    rw [world]
    cases isSocks <;> rfl
  | @refusal isSocks fd o a w passive offers refused =>
    obtain ⟨sel, pool, world, -⟩ :=
      passiveAccept_refused sound.span (fun n addr => offers.fresh n addr) refused
    refine ⟨[], ?_, nothing (passive_observed a passive)⟩
    change w.metrics = p.world.metrics
    rw [world]
    cases isSocks <;> rfl
  | @answer answer k queued x member there =>
    refine ⟨[], ?_, nothing rfl⟩
    rw [resolverLeaves_eq]
    rfl

/-! ## The run -/

/-- What the metrics are after the steps of a run. -/
structure Metrics.Ledger (m : Metrics) (ls : List (Process × Happening)) : Prop where
  connections : m.historicConnections = .ofNat (total established ls)
  attempts : m.historicConnectionsAttempts = .ofNat (total attempted ls)
  auths : m.historicAuthAttempts = .ofNat (total checked ls)
  bytes : m.historicByteTransfer = .ofNat (total carried ls)
  concurrent : m.concurrentConnections = .ofNat (total established ls) - .ofNat (total finished ls)

theorem ledger_step (ledger : p.world.metrics.Ledger ls) (sound : p.Sound base) (did : p.Did l p') :
    p'.world.metrics.Ledger (ls ++ [(p, l)]) := by
  obtain ⟨marks, metrics, gains⟩ := did_advanced sound did
  have advanced := marked_advanced p.world.metrics marks
  rw [← metrics] at advanced
  constructor
  · rw [advanced.connections, ledger.connections, gains.connections, total_step, UInt64.ofNat_add]
  · rw [advanced.attempts, ledger.attempts, gains.attempts, total_step, UInt64.ofNat_add]
  · rw [advanced.auths, ledger.auths, gains.auths, total_step, UInt64.ofNat_add]
  · rw [advanced.bytes, ledger.bytes, gains.bytes, total_step, UInt64.ofNat_add]
  · rw [advanced.concurrent, ledger.concurrent, gains.connections, gains.ended, total_step, total_step,
      UInt64.ofNat_add, UInt64.ofNat_add]
    grind

theorem main_metrics (start : mainProcess others socks mng dissectors heap users admins = some p) :
    p.world.metrics = .zero := by
  obtain ⟨sel, -, rfl⟩ := Option.map_eq_some_iff.mp start
  rfl

theorem run_ledger (start : mainProcess others socks mng dissectors heap users admins = some p)
    (run : Run Process.Step p ls p') (keeps : ∀ q ∈ ls, q.1.KeepsCount q.2) :
    p'.world.metrics.Ledger ls := by
  refine run_kept (I := fun ls q => q.world.metrics.Ledger ls) start ?_ ?_ run keeps
  · rw [main_metrics start]
    constructor <;> rfl
  · intro ls q l q' before keeps sound did ledger
    exact ledger_step ledger sound did

/-- However the connections interleave, each metric of the server is what their events add up to:
the connections found established, the calls of `connect`, the lookups of credentials, the bytes
carried, and the connections established less the relays that ended. -/
theorem metrics_ledger (start : mainProcess others socks mng dissectors heap users admins = some p)
    (run : Run Process.Step p ls p') (keeps : ∀ q ∈ ls, q.1.KeepsCount q.2) :
    p'.world.metrics.Ledger ls :=
  run_ledger start run keeps

end

/-- The first client authenticates and is connected to its origin. -/
def connects : List Happening :=
  greeted ++ [happens (received userMessage), answered, happens (receivedOpening connectRequest),
    happens (.write, 6, { Outcome.fine with connect := some .ebadf })]

theorem metrics_ledger_first : ∃ (p : Process) (ls : List (Process × Happening)) (p' : Process),
    userServer = some p ∧ Run Process.Step p ls p' ∧ p'.world.metrics.historicConnections = 1 ∧
      p'.world.metrics.Ledger ls := by
  have plays : (userServer.bind fun p => p.play connects).any
      (fun p => decide (p.world.metrics.historicConnections = 1)) = true := by
    decide +kernel
  obtain ⟨p, ls, p', start, run, -, keeps, one⟩ := served rfl plays
  exact ⟨p, ls, p', start, run, of_decide_eq_true one, metrics_ledger start run keeps⟩

end SocksProxy
