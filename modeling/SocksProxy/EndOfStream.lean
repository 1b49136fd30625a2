import SocksProxy.Guard
import SocksProxy.Relay

/-!
# End of stream in the COPY state

Reading 0 from one descriptor shuts the write side of the other at once, with
whatever is still in the buffer between them. The bytes read before have all
been sent exactly when that buffer is empty.
-/

namespace SocksProxy

open Lib

/-- The step reads 0 on `side` and so shuts the write side of the other descriptor. -/
def ShutsAtEof (s : Session) (side : Side) (l : Label) : Prop :=
  ∃ fd o, l = .event .read fd o ∧ s.In .copy ∧ copyPtr fd s.conn = some side ∧
    s.conn.fdOf side.other ≠ -1 ∧
    recvBytes o (bufferWritePtr (s.conn.buffer side.rb)) = some []

/-- The step is an event whose `recv` or `send` fails. -/
def Label.Errs : Label → Prop
  | .event .read _ o => o.recv = none
  | .event .write _ o => o.send = none
  | _ => False

/-- The bytes read on `side` since the relay began, with those it found in the
buffer, have been sent. -/
def AllSent (c : Conn) (side : Side) (s : Session) : Prop :=
  sentTo (c.fdOf side.other) (s.conn.calls.drop c.calls.length) =
    bufferReadPtr (c.buffer side.rb) ++
      receivedFrom (c.fdOf side) (s.conn.calls.drop c.calls.length)

instance (c : Conn) (side : Side) (s : Session) : Decidable (AllSent c side s) := by
  unfold AllSent
  exact inferInstance

theorem allSent_iff {c : Conn} {s : Session} {calls : List Call} (inv : Relaying c s calls)
    (side : Side) : AllSent c side s ↔ bufferReadPtr (s.conn.buffer side.rb) = [] := by
  obtain ⟨p, carried⟩ := inv.pipes side
  have since : s.conn.calls.drop c.calls.length = calls := by
    rw [inv.history, List.drop_left]
  unfold AllSent
  rw [since, ← carried.delivered, ← carried.arrived, ← carried.pending]
  constructor
  · intro all
    simpa [all] using p.conserved
  · exact Pipe.drained

/-- The bookkeeping of a relay without errors whose every end of stream found
its buffer empty: a direction that no longer reads has nothing left to send. -/
structure Settled (c : Conn) (I : Side → FdInterest) : Prop where
  shape : c.Copying I
  watched : c.Watched I
  distinct : c.clientFd ≠ c.originFd
  read : ∀ side, (I side).read = false →
    bufferReadPtr (c.buffer side.rb) = [] ∨ c.fdOf side.other = -1
  write : ∀ side, (I side).write = false → (I side.other).read = false
  absent : ∀ side, c.fdOf side = -1 → (I side).read = true

theorem fd_ne_of_registered {s : FdSelector} {fd : Int} (h : s.Registered fd) : fd ≠ -1 := by
  rintro rfl
  exact absurd h.1 (by decide)

section
variable {c d : Conn} {I J : Side → FdInterest} {side : Side} {fd : Int} {o : Outcome} {ret : Nat}

/-- An event that the selector delivers is one that its side still wants. -/
theorem watched_wants {e : Event} (watched : c.Watched I) (found : copyPtr fd c = some side)
    (delivered : Deliverable e fd c) :
    (e = .read → (I side).read = true) ∧ (e = .write → (I side).write = true) := by
  obtain rfl := copyPtr_some found
  have watched := (watched side (fd_ne_of_registered delivered.1)).2
  have ready := delivered.2.2
  constructor <;> rintro rfl <;> simp only [watched, Socks5.wants, Bool.and_eq_true] at ready
  · exact ready.1
  · exact ready.1

/-- When a side is idle, both directions have sent everything. -/
theorem settled_idle (inv : Settled c I) (idle : I side = opNoop) (x : Side) :
    bufferReadPtr (c.buffer x.rb) = [] := by
  have noRead : (I side).read = false := by rw [idle]; rfl
  have noRead' := inv.write side (by rw [idle]; rfl)
  have isOpen : ∀ y, (I y).read = false → c.fdOf y ≠ -1 := by
    intro y off fd
    rw [inv.absent y fd] at off
    cases off
  rcases side_cases side x with rfl | rfl
  · exact (inv.read x noRead).resolve_right (isOpen _ noRead')
  · refine (inv.read side.other noRead').resolve_right ?_
    rw [other_other]
    exact isOpen _ noRead

theorem settled_read (inv : Settled c I) (delivered : Deliverable .read fd c)
    (ok : o.recv ≠ none)
    (empty : ∀ x, copyPtr fd c = some x → c.fdOf x.other ≠ -1 →
      recvBytes o (bufferWritePtr (c.buffer x.rb)) = some [] →
        bufferReadPtr (c.buffer x.rb) = [])
    (ran : copyRead o fd c = .ok (ret, d)) : ∃ x J, Relayed x c d J ret ∧ Settled d J := by
  obtain ⟨x, J, found, relayed, move⟩ := copyRead_ok inv.shape ran
  have wants := (watched_wants inv.watched found delivered).1 rfl
  have fds := relayed_fdOf relayed
  have distinct : d.clientFd ≠ d.originFd := by
    rw [relayed.same.clientFd, relayed.same.originFd]
    exact inv.distinct
  have watched := relayed.watched inv.distinct
  refine ⟨x, J, relayed, ?_⟩
  rcases move with ⟨bytes, -, got, rfl, own, other, -⟩ | ⟨got, at', none', own, other, same, -⟩
  · refine ⟨relayed.shape, watched, distinct, fun y off => ?_, inv.write, by rw [fds]; exact inv.absent⟩
    rcases side_cases x y with rfl | rfl
    · rw [wants] at off
      cases off
    · rw [fds]
      change bufferReadPtr (d.buffer x.wb) = [] ∨ _
      rw [other]
      exact inv.read _ off
  · have eof : recvBytes o (bufferWritePtr (c.buffer x.rb)) = some [] := by
      rcases none' with rfl | rfl
      · exact absurd (Option.map_eq_none_iff.mp at') ok
      · exact at'
    refine ⟨relayed.shape, watched, distinct, fun y off => ?_, fun y off => ?_, fun y absent => ?_⟩
    · rw [fds, same]
      rcases side_cases x y with rfl | rfl
      · by_cases closed : c.fdOf y.other = -1
        · exact Or.inr closed
        · exact Or.inl (empty y found closed eof)
      · rw [other] at off
        refine inv.read _ ?_
        split at off <;> exact off
    · rcases side_cases x y with rfl | rfl
      · rw [own] at off
        rw [other]
        have := inv.write y off
        split <;> exact this
      · rw [other_other, own]
        rfl
    · rw [fds] at absent
      rcases side_cases x y with rfl | rfl
      · obtain rfl := copyPtr_some found
        exact absurd absent (fd_ne_of_registered delivered.1)
      · rw [other]
        simp only [absent, ne_eq, not_true_eq_false, if_false]
        exact inv.absent _ absent

theorem settled_write (inv : Settled c I) (ok : o.send ≠ none)
    (ran : copyWrite o fd c = .ok (ret, d)) : ∃ x J, Relayed x c d J ret ∧ Settled d J := by
  obtain ⟨x, J, found, relayed, move⟩ := copyWrite_ok inv.shape ran
  have fds := relayed_fdOf relayed
  rcases move with ⟨bytes, sent, rfl, own, other, -⟩ | ⟨failed, -⟩
  · refine ⟨x, J, relayed, relayed.shape, relayed.watched inv.distinct, ?_, fun y off => ?_,
      inv.write, by rw [fds]; exact inv.absent⟩
    · rw [relayed.same.clientFd, relayed.same.originFd]
      exact inv.distinct
    · rw [fds]
      rcases inv.read y off with empty | absent
      · refine Or.inl ?_
        rcases side_cases x y with rfl | rfl
        · rw [other, empty]
        · change bufferReadPtr (d.buffer x.wb) = []
          rw [own, bufferTake_readPtr]
          change (bufferReadPtr (c.buffer x.other.rb)).drop _ = []
          rw [empty, List.drop_nil]
      · exact Or.inr absent
  · exact absurd (Option.map_eq_none_iff.mp failed) ok

end

/-- A session that still relays is settled; one that is DONE has nothing pending. -/
def SettledSession (s : Session) : Prop :=
  s.In .copy ∧ (∃ I, Settled s.conn I) ∨
    s.In .done ∧ ∀ side : Side, bufferReadPtr (s.conn.buffer side.rb) = []

theorem settled_env {s : Session} {w : World} (inv : SettledSession s) (rely : Rely s.conn w) :
    SettledSession ⟨s.stm, { s.conn with toWorld := w }⟩ := by
  rcases inv with ⟨at', I, settled⟩ | done
  · refine Or.inl ⟨at', I, ⟨settled.shape, fun side isOpen => ?_, settled.distinct, settled.read,
      settled.write, settled.absent⟩⟩
    have kept : w.sel.fds (s.conn.fdOf side) = s.conn.sel.fds (s.conn.fdOf side) := by
      apply rely.slots
      cases side
      · exact Or.inl rfl
      · exact Or.inr (Or.inl rfl)
    have watched := settled.watched side isOpen
    refine ⟨⟨watched.1.1, ?_⟩, ?_⟩
    · change (w.sel.fds (s.conn.fdOf side)).used = true
      rw [kept]
      exact watched.1.2
    · change (w.sel.fds (s.conn.fdOf side)).interest = _
      rw [kept]
      exact watched.2
  · exact Or.inr done

theorem settled_event {e : Event} {fd : Int} {o : Outcome} {s t : Session}
    (inv : SettledSession s) (delivered : Deliverable e fd s.conn)
    (ok : (e = .read → o.recv ≠ none) ∧ (e = .write → o.send ≠ none))
    (empty : ∀ side, e = .read → s.In .copy → copyPtr fd s.conn = some side →
      s.conn.fdOf side.other ≠ -1 → recvBytes o (bufferWritePtr (s.conn.buffer side.rb)) = some [] →
        bufferReadPtr (s.conn.buffer side.rb) = [])
    (h : handleEvent e o fd s = .ok t) : SettledSession t := by
  rcases inv with ⟨at', I, settled⟩ | ⟨at', -⟩
  · obtain ⟨ret, mid, ran, stm, goes⟩ := copy_event at' settled.shape h
    obtain ⟨x, J, relayed, settled'⟩ : ∃ x J, Relayed x s.conn mid J ret ∧ Settled mid J := by
      rcases ran with ⟨rfl, ran⟩ | ⟨rfl, ran⟩
      · exact settled_read settled delivered (ok.1 rfl) (fun x => empty x rfl at') ran
      · exact settled_write settled (ok.2 rfl) ran
    rcases goes with ⟨rfl, eq⟩ | ⟨rfl, fin⟩
    · refine Or.inl ⟨⟨?_, by rw [stm]⟩, J, by rw [eq]; exact settled'⟩
      rw [eq, relayed.same.isSocks]
      exact at'.1
    · have idle : J x = opNoop := by
        by_contra busy
        have := relayed.ret
        simp [busy, SocksV5State.num] at this
      obtain ⟨n, ended, record, -⟩ := finish_record fin
      refine Or.inr ⟨⟨?_, by rw [stm]⟩, fun side => ?_⟩
      · rw [record]
        exact relayed.same.isSocks.trans at'.1
      · rw [record, ← settled_idle settled' idle side]
        cases side <;> rfl
  · exact absurd h (no_event_done at')

/-- What a step must be for a relay to lose nothing. -/
def FindsEmpty (s : Session) (l : Label) : Prop :=
  ∀ side, ShutsAtEof s side l → bufferReadPtr (s.conn.buffer side.rb) = []

theorem settled_step {s t : Session} {l : Label} (inv : SettledSession s)
    (ok : ¬ l.Errs ∧ FindsEmpty s l) (st : Guarded s l t) : SettledSession t := by
  obtain ⟨allowed, st⟩ := st
  unfold Step at st
  match l with
  | .event .read fd o =>
    refine settled_event inv allowed.1 ⟨fun _ => ok.1, fun e => nomatch e⟩ ?_ st
    intro side _ at' found isOpen eof
    exact ok.2 side ⟨fd, o, rfl, at', found, isOpen, eof⟩
  | .event .write fd o =>
    exact settled_event inv allowed.1 ⟨(fun e => nomatch e), fun _ => ok.1⟩ (fun _ e => nomatch e) st
  | .event .block fd o =>
    have st' : handleEvent .block o fd (takeJob fd s) = .ok t := st
    rcases inv with ⟨at', I, settled⟩ | ⟨at', -⟩
    · have at'' : (takeJob fd s).In .copy := at'
      have shape : (takeJob fd s).conn.Copying I := settled.shape
      obtain ⟨ret, mid, ran, -⟩ := copy_event at'' shape st'
      rcases ran with ⟨e, -⟩ | ⟨e, -⟩ <;> cases e
    · have at'' : (takeJob fd s).In .done := at'
      exact absurd st' (no_event_done at'')
  | .resolved answer fd =>
    simp only [fire, Except.ok.injEq] at st
    subst st
    rcases inv with ⟨at', I, settled⟩ | ⟨at', empty⟩
    · exact Or.inl ⟨at', I, ⟨settled.shape, settled.watched, settled.distinct, settled.read,
        settled.write, settled.absent⟩⟩
    · exact Or.inr ⟨at', empty⟩
  | .env w =>
    simp only [fire, Except.ok.injEq] at st
    subst st
    exact settled_env inv allowed

theorem settled_start {fd : Int} {c : Conn} {s : Session} (arrival : copyInit fd c = .ok s.conn)
    (at' : s.In .copy) (distinct : c.clientFd ≠ c.originFd) : SettledSession s := by
  obtain ⟨shape, same, -, -, -, watched⟩ := copyInit_ok arrival
  refine Or.inl ⟨at', _, ⟨shape, watched distinct, ?_, ?_, ?_, fun _ _ => rfl⟩⟩
  · rw [same.clientFd, same.originFd]
    exact distinct
  · intro side off
    cases off
  · intro side off
    cases off

/-- Every run from `copy_init`: the bytes read before an end of stream have all
been sent if and only if each end of stream finds its buffer empty. In a run of
that kind without errors, DONE is reached with everything delivered. -/
theorem eof_delivers {fd : Int} {c : Conn} {s t : Session} {ls : List (Session × Label)}
    (arrival : copyInit fd c = .ok s.conn) (at' : s.In .copy) (distinct : c.clientFd ≠ c.originFd)
    (run : Run Guarded s ls t) :
    ((∀ p ∈ ls, ∀ side, ShutsAtEof p.1 side p.2 → AllSent c side p.1) ↔
      ∀ p ∈ ls, FindsEmpty p.1 p.2) ∧
    ((∀ p ∈ ls, FindsEmpty p.1 p.2) → (∀ p ∈ ls, ¬ p.2.Errs) → t.In .done →
      ∀ side, AllSent c side t) := by
  constructor
  · have sent : ∀ p ∈ ls, ∀ side, AllSent c side p.1 ↔
        bufferReadPtr (p.1.conn.buffer side.rb) = [] := by
      intro p member side
      obtain ⟨ms, u, before, -⟩ := run.mem_step member
      obtain ⟨calls, inv⟩ := relaying_run arrival at' distinct (guarded_run_step before)
      exact allSent_iff inv side
    constructor
    · intro all p member side shuts
      exact (sent p member side).mp (all p member side shuts)
    · intro empty p member side shuts
      exact (sent p member side).mpr (empty p member side shuts)
  · intro empty noErr done side
    have settled : SettledSession t := by
      refine run.invariant (C := fun s l => ¬ l.Errs ∧ FindsEmpty s l) ?_ ?_
        (settled_start arrival at' distinct)
      · intro u l v inv ok st
        exact settled_step inv ok st
      · intro p member
        exact ⟨noErr p member, empty p member⟩
    obtain ⟨calls, inv⟩ := relaying_run arrival at' distinct (guarded_run_step run)
    rw [allSent_iff inv]
    rcases settled with ⟨copying, -⟩ | ⟨-, drained⟩
    · have := copying.2.symm.trans done.2
      cases this
    · exact drained side

/-- The client's stream ends, then the origin's. -/
def streamsEnd : List (Event × Int × Outcome) :=
  [received [], (.read, 6, { Outcome.fine with recv := some [] })]

/-- The event finds nothing in a buffer whose stream it ends, and does not fail. -/
def endsEmpty (s : Session) (e : Event) (_ : Int) (o : Outcome) : Bool :=
  decide ((e = .read → o.recv ≠ none) ∧ (e = .write → o.send ≠ none)) &&
    [Side.client, .orig].all fun side => decide (recvBytes o (bufferWritePtr (s.conn.buffer side.rb)) =
      some [] → bufferReadPtr (s.conn.buffer side.rb) = [])

theorem eof_delivers_first : ∃ r t ls, firstRelay = some r ∧ Run Guarded r.2 ls t ∧
    ls.map (·.2) = ([received [9], (.write, 6, .fine)] ++ streamsEnd).map
      (fun e => .event e.1 e.2.1 e.2.2) ∧
    (∀ p ∈ ls, ∀ side, ShutsAtEof p.1 side p.2 → AllSent r.1 side p.1) ∧
    t.In .done ∧ ∀ side, AllSent r.1 side t := by
  have plays : firstRelay.any (fun (r : Conn × Session) =>
      checks endsEmpty r.2 ([received [9], (.write, 6, .fine)] ++ streamsEnd) &&
        (play r.2 ([received [9], (.write, 6, .fine)] ++ streamsEnd)).any
          fun t => decide (t.In .done)) = true := by
    decide +kernel
  obtain ⟨r, start, plays⟩ := (Option.any_eq_true _ _).mp plays
  obtain ⟨checked, plays⟩ := (Bool.and_eq_true _ _).mp plays
  obtain ⟨t, played, ended⟩ := (Option.any_eq_true _ _).mp plays
  obtain ⟨arrival, at', distinct⟩ := firstRelay_start start
  obtain ⟨ls, run, labels, good⟩ := play_checked played checked
  have empty : ∀ p ∈ ls, FindsEmpty p.1 p.2 := by
    intro p member side shuts
    obtain ⟨e, fd, o, label, ends⟩ := good p member
    obtain ⟨fd', o', label', -, -, -, got⟩ := shuts
    obtain ⟨-, -, rfl⟩ := Label.event.inj (label.symm.trans label')
    have both := List.all_eq_true.mp ((Bool.and_eq_true _ _).mp ends).2
    exact of_decide_eq_true (both side (by cases side <;> simp)) got
  have fine : ∀ p ∈ ls, ¬ p.2.Errs := by
    intro p member
    obtain ⟨e, fd, o, label, ends⟩ := good p member
    obtain ⟨recv, send⟩ := of_decide_eq_true ((Bool.and_eq_true _ _).mp ends).1
    rw [label]
    cases e with
    | read => exact recv rfl
    | write => exact send rfl
    | block => exact id
  obtain ⟨iff, ends⟩ := eof_delivers arrival at' distinct run
  have done := of_decide_eq_true ended
  exact ⟨r, t, ls, start, run, labels, iff.mpr empty, done, ends empty fine done⟩

/-- A byte of the client is read, the end of its stream is read before the byte
is written, and the byte is never sent. -/
theorem eof_drops_pending : ∃ (c : Conn) (s t : Session) (ls : List (Session × Label)),
    copyInit 5 c = .ok s.conn ∧ s.In .copy ∧ c.clientFd ≠ c.originFd ∧ Run Guarded s ls t ∧
    (∀ p ∈ ls, ¬ p.2.Errs) ∧ (∃ p ∈ ls, ShutsAtEof p.1 .client p.2 ∧ ¬ AllSent c .client p.1) ∧
    t.In .done ∧ ¬ AllSent c .client t := by
  have plays : firstRelay.any (fun (r : Conn × Session) => (play r.2 [received [9]]).any fun s =>
      decide ((s.conn.isSocks = true ∧ s.stm.current = some SocksV5State.copy.num) ∧
        copyPtr 5 s.conn = some .client ∧ s.conn.fdOf .orig ≠ -1 ∧
        recvBytes (received []).2.2 (bufferWritePtr s.conn.readBuffer) = some [] ∧
        ¬ AllSent r.1 .client s) &&
      (play s streamsEnd).any fun t =>
        decide ((t.conn.isSocks = true ∧ t.stm.current = some SocksV5State.done.num) ∧
          ¬ AllSent r.1 .client t)) = true := by
    decide +kernel
  obtain ⟨r, start, plays⟩ := (Option.any_eq_true _ _).mp plays
  obtain ⟨s, first, plays⟩ := (Option.any_eq_true _ _).mp plays
  obtain ⟨eof, plays⟩ := (Bool.and_eq_true _ _).mp plays
  obtain ⟨t, second, last⟩ := (Option.any_eq_true _ _).mp plays
  obtain ⟨at', found, isOpen, zero, unsent⟩ := of_decide_eq_true eof
  obtain ⟨done, lost⟩ := of_decide_eq_true last
  obtain ⟨arrival, copying, distinct⟩ := firstRelay_start start
  obtain ⟨ls, run, labels⟩ := play_run first
  obtain ⟨u, shut, second⟩ := play_cons second
  obtain ⟨ms, run', labels'⟩ := play_run second
  refine ⟨r.1, r.2, t, ls ++ ([(s, _)] ++ ms), arrival, copying, distinct,
    run.append (.append (.single shut) run'), fun p member errs => ?_,
    ⟨(s, _), List.mem_append_right _ (List.mem_append_left _ (List.mem_singleton.mpr rfl)),
      ⟨5, _, rfl, at', found, isOpen, zero⟩, unsent⟩, done, lost⟩
  have label := List.mem_map_of_mem (f := fun q : Session × Label => q.2) member
  simp only [List.map_append, labels, labels', received, List.map_cons, List.map_nil,
    List.mem_append, List.mem_singleton] at label
  rcases label with label | label | label <;> rw [label] at errs <;> cases errs

end SocksProxy
