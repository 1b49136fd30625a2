import SocksProxy.Boot
import SocksProxy.Lib.Pipe

/-!
# The COPY state as two pipes

Each direction is a pipe: what was received on one descriptor comes out on
the other. A run of relay events refines the two pipes, so nothing is lost,
repeated, reordered or sent the wrong way.
-/

namespace SocksProxy

open Lib

/-- A relay event: the handler, and where the machine goes. -/
def RelayEvent (e : Event) (o : Outcome) (fd : Int) (s t : Session) : Prop :=
  ∃ ret mid, (e = .read ∧ copyRead o fd s.conn = .ok (ret, mid) ∨
      e = .write ∧ copyWrite o fd s.conn = .ok (ret, mid)) ∧
    t.stm = { s.stm with current := some ret } ∧
    (ret = SocksV5State.copy.num ∧ t.conn = mid ∨
      ret = SocksV5State.done.num ∧ finish true mid = .ok t.conn)

theorem copy_event {e : Event} {o : Outcome} {fd : Int} {s t : Session} {I : Side → FdInterest}
    (at' : s.In .copy) (shape : s.conn.Copying I) (h : handleEvent e o fd s = .ok t) :
    RelayEvent e o fd s t := by
  obtain ⟨i, d, handler, start, ret, mid, last, found, present, picked, ran, stm, moved, ended⟩ :=
    handleEvent_ok h
  obtain ⟨rfl, rfl⟩ := found_of_current found at'.2
  simp only [statesOf, at'.1, if_true] at present moved ended
  simp only [clientStatbl, SocksV5State.num, List.getElem?_cons_succ, List.getElem?_cons_zero,
    Option.some.injEq] at present
  subst present
  have handled : e = .read ∧ copyRead o fd s.conn = .ok (ret, mid) ∨
      e = .write ∧ copyWrite o fd s.conn = .ok (ret, mid) := by
    cases e <;> simp only [Event.handler, entry, Option.some.injEq, reduceCtorEq] at picked
    · exact Or.inl ⟨rfl, picked ▸ ran⟩
    · exact Or.inr ⟨rfl, picked ▸ ran⟩
  refine ⟨ret, mid, handled, stm, ?_⟩
  obtain ⟨side, I', relayed⟩ : ∃ side I', Relayed side s.conn mid I' ret := by
    rcases handled with ⟨-, ran⟩ | ⟨-, ran⟩
    · obtain ⟨side, I', -, relayed, -⟩ := copyRead_ok shape ran
      exact ⟨side, I', relayed⟩
    · obtain ⟨side, I', -, relayed, -⟩ := copyWrite_ok shape ran
      exact ⟨side, I', relayed⟩
  have ret_eq := relayed.ret
  by_cases idle : I' side = opNoop
  · -- DONE has no hooks
    simp only [idle, if_true] at ret_eq
    subst ret_eq
    have same : last = mid := by
      rcases moved with ⟨eq, -⟩ | ⟨-, d, e, hook, found, found', left, arrived⟩
      · cases eq
      · simp only [clientStatbl, SocksV5State.num, List.getElem?_cons_succ, List.getElem?_cons_zero,
          Option.some.injEq] at found found'
        subst found found'
        simp only [entry, runHook, Except.ok.injEq] at left arrived
        rw [← arrived, ← left]
    subst same
    rcases ended with ⟨-, ended⟩ | ⟨going, -⟩
    · exact Or.inr ⟨rfl, ended⟩
    · exact absurd (by simp [Terminal]) going
  · simp only [idle, if_false] at ret_eq
    subst ret_eq
    have same : last = mid := by
      rcases moved with ⟨-, eq⟩ | ⟨ne, -⟩
      · exact eq
      · exact absurd rfl ne
    rcases ended with ⟨terminal, -⟩ | ⟨-, eq⟩
    · simp [Terminal, SocksV5State.num] at terminal
    · exact Or.inl ⟨rfl, by rw [eq, same]⟩

/-- The pipe of the bytes that `side` reads and the other side writes, between
the record `c` and what `calls` did to it. -/
structure Carries (p : Pipe UInt8) (side : Side) (c c' : Conn) (calls : List Call) : Prop where
  pending : p.pending = bufferReadPtr (c'.buffer side.rb)
  arrived : p.arrived = bufferReadPtr (c.buffer side.rb) ++ receivedFrom (c.fdOf side) calls
  delivered : p.delivered = sentTo (c.fdOf side.other) calls

/-- The bytes a call takes from the descriptor of a side, and puts on the other's. -/
def Moves (side : Side) (c : Socks5) (calls : List Call) (taken put : List UInt8) : Prop :=
  receivedFrom (c.fdOf side) calls = taken ∧ sentTo (c.fdOf side.other) calls = put

theorem moves_shutdowns (s side : Side) (c : Socks5) (how otherHow : How) {call : Call}
    (silent : ∀ fd, call.received fd = [] ∧ call.sent fd = []) :
    Moves side c (call :: shutdowns c s how otherHow) [] [] := by
  unfold Moves shutdowns receivedFrom sentTo
  simp only [List.flatMap_cons, silent, List.nil_append]
  split <;> exact ⟨rfl, rfl⟩

/-- A relay event is a push or a pop on one of the two pipes, or nothing. -/
theorem relay_moves {e : Event} {o : Outcome} {fd : Int} {s : Session} {I : Side → FdInterest}
    {ret : Nat} {mid : Conn} (shape : s.conn.Copying I) (distinct : s.conn.clientFd ≠ s.conn.originFd)
    (h : e = .read ∧ copyRead o fd s.conn = .ok (ret, mid) ∨
      e = .write ∧ copyWrite o fd s.conn = .ok (ret, mid)) :
    ∃ calls, mid.calls = s.conn.calls ++ calls ∧ ∀ side, ∃ taken put,
      Moves side s.conn.toSocks5 calls taken put ∧
      ∃ n, put = (bufferReadPtr (s.conn.buffer side.rb)).take n ∧
        bufferReadPtr (mid.buffer side.rb) =
          (bufferReadPtr (s.conn.buffer side.rb)).drop n ++ taken ∧ (n = 0 ∨ taken = []) := by
  have apart : ∀ x : Side, s.conn.fdOf x ≠ s.conn.fdOf x.other := by
    intro x
    cases x
    · exact distinct
    · exact distinct.symm
  rcases h with ⟨-, ran⟩ | ⟨-, ran⟩
  · obtain ⟨x, I', found, -, move⟩ := copyRead_ok shape ran
    obtain rfl := copyPtr_some found
    rcases move with ⟨bytes, -, got, -, own, other, calls⟩ | ⟨got, -, none', -, -, same, calls⟩
    · refine ⟨_, calls, fun side => ?_⟩
      rcases side_cases x side with rfl | rfl
      · refine ⟨bytes, [], ⟨?_, ?_⟩, 0, by simp, ?_, Or.inl rfl⟩
        · simp [receivedFrom, Call.received]
        · simp [sentTo, Call.sent]
        · rw [own, bufferFill_readPtr (recvBytes_le got)]
          simp
      · refine ⟨[], [], ⟨?_, ?_⟩, 0, by simp, ?_, Or.inl rfl⟩
        · simp [receivedFrom, Call.received, apart]
        · simp [sentTo, Call.sent]
        · change bufferReadPtr (mid.buffer x.wb) = _
          rw [other]
          simp [Side.wb]
    · refine ⟨_, calls, fun side => ⟨[], [], ?_, 0, by simp, by simp [same], Or.inl rfl⟩⟩
      apply moves_shutdowns
      intro fd
      rcases none' with rfl | rfl <;> simp [Call.received, Call.sent]
  · obtain ⟨x, I', found, -, move⟩ := copyWrite_ok shape ran
    obtain rfl := copyPtr_some found
    rcases move with ⟨bytes, sent, -, own, other, calls⟩ | ⟨-, -, -, same, calls⟩
    · refine ⟨_, calls, fun side => ?_⟩
      rcases side_cases x side with rfl | rfl
      · refine ⟨[], [], ⟨?_, ?_⟩, 0, by simp, by simp [other], Or.inl rfl⟩
        · simp [receivedFrom, Call.received]
        · simp [sentTo, Call.sent, apart]
      · refine ⟨[], bytes, ⟨?_, ?_⟩, bytes.length, sentBytes_eq sent, ?_, Or.inr rfl⟩
        · simp [receivedFrom, Call.received]
        · simp [sentTo, Call.sent]
        · change bufferReadPtr (mid.buffer x.wb) = _
          rw [own, bufferTake_readPtr]
          simp [Side.wb]
    · refine ⟨_, calls, fun side => ⟨[], [], ?_, 0, by simp, by simp [same], Or.inl rfl⟩⟩
      exact moves_shutdowns _ _ _ _ _ (fun fd => by simp [Call.received, Call.sent])

/-- Where a run from `copy_init` is: the record still copies, or the session is
DONE; in both cases two pipes account for what moved. -/
structure Relaying (c : Conn) (t : Session) (calls : List Call) : Prop where
  history : t.conn.calls = c.calls ++ calls
  fds : t.conn.fdOf = c.fdOf
  place : t.In .copy ∧ (∃ I, t.conn.Copying I) ∨ t.In .done
  pipes : ∀ side, ∃ p, Carries p side c t.conn calls

theorem relaying_start {fd : Int} {c : Conn} {s : Session} (arrival : copyInit fd c = .ok s.conn)
    (at' : s.In .copy) : Relaying c s [] := by
  obtain ⟨shape, same, buffers, calls, -⟩ := copyInit_ok arrival
  refine ⟨by simp [calls], ?_, Or.inl ⟨at', _, shape⟩, fun side => ?_⟩
  · funext side
    cases side
    · exact same.clientFd
    · exact same.originFd
  · exact ⟨.start (bufferReadPtr (c.buffer side.rb)), by simp [Pipe.start, buffers],
      by simp [Pipe.start, receivedFrom], by simp [Pipe.start, sentTo]⟩

/-- A terminal state has no handler. -/
theorem no_event_done {e : Event} {o : Outcome} {fd : Int} {s t : Session} (at' : s.In .done) :
    handleEvent e o fd s ≠ .ok t := by
  intro h
  obtain ⟨i, d, handler, start, ret, mid, last, found, present, picked, -⟩ := handleEvent_ok h
  obtain ⟨rfl, rfl⟩ := found_of_current found at'.2
  simp only [statesOf, at'.1, if_true, clientStatbl, SocksV5State.num, List.getElem?_cons_succ,
    List.getElem?_cons_zero, Option.some.injEq] at present
  subst present
  cases e <;> cases picked

theorem relaying_event {e : Event} {o : Outcome} {fd : Int} {c : Conn} {s t : Session}
    {calls : List Call} (inv : Relaying c s calls) (distinct : c.clientFd ≠ c.originFd)
    (h : handleEvent e o fd s = .ok t) : ∃ calls, Relaying c t calls := by
  rcases inv.place with ⟨at', I, shape⟩ | at'
  · obtain ⟨ret, mid, ran, stm, goes⟩ := copy_event at' shape h
    have distinct' : s.conn.clientFd ≠ s.conn.originFd := by
      have client : s.conn.clientFd = c.clientFd := congrFun inv.fds .client
      have origin : s.conn.originFd = c.originFd := congrFun inv.fds .orig
      rw [client, origin]
      exact distinct
    obtain ⟨more, history, moves⟩ := relay_moves shape distinct' ran
    obtain ⟨x, I', relayed⟩ : ∃ x I', Relayed x s.conn mid I' ret := by
      rcases ran with ⟨-, ran⟩ | ⟨-, ran⟩
      · obtain ⟨x, I', -, relayed, -⟩ := copyRead_ok shape ran
        exact ⟨x, I', relayed⟩
      · obtain ⟨x, I', -, relayed, -⟩ := copyWrite_ok shape ran
        exact ⟨x, I', relayed⟩
    have mid_fds : mid.fdOf = c.fdOf := (relayed_fdOf relayed).trans inv.fds
    -- the end of the connection adds calls that move no byte
    obtain ⟨ended, quiet, record, place⟩ : ∃ ended, (∀ call ∈ ended, call.Ending) ∧
        (∃ n, t.conn.toSocks5 = { mid.toSocks5 with references := n, calls := mid.calls ++ ended }) ∧
        (t.In .copy ∧ (∃ I, t.conn.Copying I) ∨ t.In .done) := by
      rcases goes with ⟨rfl, eq⟩ | ⟨rfl, fin⟩
      · refine ⟨[], by simp, ⟨mid.references, by simp [eq]⟩, Or.inl ⟨⟨?_, by rw [stm]⟩, I', ?_⟩⟩
        · rw [eq, relayed.same.isSocks]
          exact at'.1
        · rw [eq]
          exact relayed.shape
      · obtain ⟨n, ended, eq, quiet⟩ := finish_record fin
        refine ⟨ended, quiet, ⟨n, eq⟩, Or.inr ⟨?_, by rw [stm]⟩⟩
        rw [eq]
        exact relayed.same.isSocks.trans at'.1
    obtain ⟨n, record⟩ := record
    refine ⟨calls ++ (more ++ ended), ?_, ?_, place, fun side => ?_⟩
    · rw [record]
      simp [history, inv.history]
    · rw [record, ← mid_fds]
      funext side
      cases side <;> rfl
    · obtain ⟨p, carried⟩ := inv.pipes side
      obtain ⟨taken, put, ⟨took, gave⟩, k, cut, left, -⟩ := moves side
      refine ⟨(p.pop k).push taken, ?_, ?_, ?_⟩
      · rw [record]
        simp only [Pipe.push, Pipe.pop, carried.pending]
        rw [← left]
        cases side <;> rfl
      · rw [← inv.fds]
        simp only [Pipe.push, Pipe.pop, carried.arrived, receivedFrom_append, took,
          received_ending quiet, List.append_nil, List.append_assoc]
        rw [inv.fds]
      · simp only [Pipe.push, Pipe.pop, carried.delivered, carried.pending, sentTo_append,
          sent_ending quiet, List.append_nil]
        rw [← cut, ← gave, inv.fds]
  · exact absurd h (no_event_done at')

/-- What does not act on a session's machine keeps its pipes as they are. -/
theorem relaying_frame {c : Conn} {s t : Session} {calls : List Call} (inv : Relaying c s calls)
    (stm : t.stm = s.stm)
    (record : ∃ answer, t.conn.toSocks5 = { s.conn.toSocks5 with originResolution := answer }) :
    Relaying c t calls := by
  obtain ⟨answer, record⟩ := record
  refine ⟨by rw [record]; exact inv.history, ?_, ?_, fun side => ?_⟩
  · rw [record, ← inv.fds]
    funext side
    cases side <;> rfl
  · rcases inv.place with ⟨at', I, shape⟩ | at'
    · refine Or.inl ⟨⟨by rw [record]; exact at'.1, by rw [stm]; exact at'.2⟩, I, fun side => ?_⟩
      rw [record]
      have := shape side
      cases side <;> exact this
    · exact Or.inr ⟨by rw [record]; exact at'.1, by rw [stm]; exact at'.2⟩
  · obtain ⟨p, carried⟩ := inv.pipes side
    refine ⟨p, ?_, carried.arrived, carried.delivered⟩
    rw [carried.pending, record]
    cases side <;> rfl

theorem relaying_step {c : Conn} {s t : Session} {l : Label} {calls : List Call}
    (inv : Relaying c s calls) (distinct : c.clientFd ≠ c.originFd) (h : Step s l t) :
    ∃ calls, Relaying c t calls := by
  unfold Step at h
  match l with
  | .event .read fd o => exact relaying_event inv distinct h
  | .event .write fd o => exact relaying_event inv distinct h
  | .event .block fd o =>
    have taken : Relaying c (takeJob fd s) calls :=
      relaying_frame inv rfl ⟨s.conn.originResolution, rfl⟩
    exact relaying_event taken distinct h
  | .resolved answer fd =>
    simp only [fire, Except.ok.injEq] at h
    subst h
    exact ⟨calls, relaying_frame inv rfl ⟨answer, rfl⟩⟩
  | .env w =>
    simp only [fire, Except.ok.injEq] at h
    subst h
    exact ⟨calls, relaying_frame inv rfl ⟨s.conn.originResolution, rfl⟩⟩

theorem relaying_run {fd : Int} {c : Conn} {s t : Session} {ls : List (Session × Label)}
    (arrival : copyInit fd c = .ok s.conn) (at' : s.In .copy) (distinct : c.clientFd ≠ c.originFd)
    (run : Run Step s ls t) : ∃ calls, Relaying c t calls := by
  refine run.always (I := fun t => ∃ calls, Relaying c t calls) ?_ ⟨[], relaying_start arrival at'⟩
  rintro t l u ⟨calls, inv⟩ st
  exact relaying_step inv distinct st

/-- The two descriptors are different numbers, as any two open descriptors are. -/
theorem relay_integrity {fd : Int} {c : Conn} {s t : Session} {ls : List (Session × Label)}
    (arrival : copyInit fd c = .ok s.conn) (at' : s.In .copy) (distinct : c.clientFd ≠ c.originFd)
    (run : Run Step s ls t) :
    ∃ calls, t.conn.calls = c.calls ++ calls ∧
      sentTo c.originFd calls ++ bufferReadPtr t.conn.readBuffer =
        bufferReadPtr c.readBuffer ++ receivedFrom c.clientFd calls ∧
      sentTo c.clientFd calls ++ bufferReadPtr t.conn.writeBuffer =
        bufferReadPtr c.writeBuffer ++ receivedFrom c.originFd calls := by
  obtain ⟨calls, inv⟩ := relaying_run arrival at' distinct run
  obtain ⟨p, up⟩ := inv.pipes .client
  obtain ⟨q, down⟩ := inv.pipes .orig
  refine ⟨calls, inv.history, ?_, ?_⟩
  · have := p.conserved
    rwa [up.pending, up.arrived, up.delivered] at this
  · have := q.conserved
    rwa [down.pending, down.arrived, down.delivered] at this

/-- The first client when its relay begins: the record that `copy_init` is given,
and the session it leaves. -/
def firstRelay : Option (Conn × Session) :=
  (firstClient (greeting ++ [receivedOpening connectRequest, (.write, 6, .fine)])).bind fun r =>
    match requestWrite .fine 5 r.conn with
    | .error _ => none
    | .ok (_, c) =>
      match copyInit 5 c with
      | .error _ => none
      | .ok c' => some (c, ⟨{ r.stm with current := some SocksV5State.copy.num }, c'⟩)

theorem firstRelay_start {r : Conn × Session} (h : firstRelay = some r) :
    copyInit 5 r.1 = .ok r.2.conn ∧ r.2.In .copy ∧ r.1.clientFd ≠ r.1.originFd := by
  have facts : firstRelay.all (fun r => r.2.conn.isSocks && decide (r.1.clientFd ≠ r.1.originFd)) =
      true := by decide +kernel
  rw [h] at facts
  simp only [Option.all_some, Bool.and_eq_true, decide_eq_true_eq] at facts
  obtain ⟨r', -, h⟩ := Option.bind_eq_some_iff.mp h
  split at h
  · cases h
  · split at h
    · cases h
    · rename_i c' arrival
      simp only [Option.some.injEq] at h
      subst h
      exact ⟨arrival, ⟨facts.1, rfl⟩, facts.2⟩

theorem relay_integrity_first : ∃ r t calls, firstRelay = some r ∧
    play r.2 [received [1, 2], (.write, 6, .fine)] = some t ∧
    sentTo r.1.originFd calls ++ bufferReadPtr t.conn.readBuffer =
      bufferReadPtr r.1.readBuffer ++ receivedFrom r.1.clientFd calls := by
  have plays : firstRelay.any (fun r =>
      (play r.2 [received [1, 2], (.write, 6, .fine)]).isSome) = true := by decide +kernel
  obtain ⟨r, start, plays⟩ := (Option.any_eq_true _ _).mp plays
  obtain ⟨t, played⟩ := Option.isSome_iff_exists.mp plays
  obtain ⟨arrival, at', distinct⟩ := firstRelay_start start
  obtain ⟨ls, run, -⟩ := play_run played
  obtain ⟨calls, -, up, -⟩ := relay_integrity arrival at' distinct (guarded_run_step run)
  exact ⟨r, t, calls, start, played, up⟩

end SocksProxy
