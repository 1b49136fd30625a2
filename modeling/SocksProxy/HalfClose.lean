import SocksProxy.Boot
import SocksProxy.Rooms

/-!
# Half-closed relays

What one side of the relay reads the other side writes, so a direction is open at both
of its ends or at neither. A buffer that is full has unread bytes: an open direction
always has an end that the selector watches.
-/

namespace SocksProxy

open Lib

/-- Each direction is open at both of its ends or at neither. -/
def Paired (I : Side → FdInterest) : Prop := ∀ side, (I side).read = (I side.other).write

/-- The interests of a relay whose descriptors are both open. -/
structure Conn.Flows (c : Conn) (I : Side → FdInterest) : Prop where
  shape : c.Copying I
  paired : ∀ side, (I side).read = true ↔ (I side.other).write = true
  read : ∀ side, (c.sel.fds (c.fdOf side)).interest.read = true ↔
    (I side).read = true ∧ bufferCanWrite (c.buffer side.rb) = true
  write : ∀ side, (c.sel.fds (c.fdOf side)).interest.write = true ↔
    (I side).write = true ∧ bufferCanRead (c.buffer side.wb) = true
  awake : (∃ side, (I side).read = true) →
    ∃ side, (c.sel.fds (c.fdOf side)).interest ≠ opNoop

/-- A `recv` of the relay has room, so that it finds an end only where the stream ends. -/
def Conn.ReadsInto (c : Conn) (fd : Int) : Prop :=
  ∃ side, copyPtr fd c = some side ∧ 0 < bufferWritePtr (c.buffer side.rb) ∧
    ∀ o, recvBytes o (bufferWritePtr (c.buffer side.rb)) = some [] → o.recv = some []

def Conn.WritesFrom (c : Conn) (fd : Int) : Prop :=
  ∃ side, copyPtr fd c = some side ∧ 0 < (bufferReadPtr (c.buffer side.wb)).length

section
variable {k k' : Course} {c d : Conn} {s t : Session} {l : Label} {e : Event} {o : Outcome}
  {fd : Int} {ret : Nat} {I J : Side → FdInterest} {side : Side} {act : Act}

/-! ## The pairing of the interests -/

/-- Both ends of the direction that `side` reads are closed. -/
theorem paired_read (side : Side) (paired : Paired I) (own : J side = dropRead (I side))
    (other : J side.other = dropWrite (I side.other)) : Paired J := by
  intro x
  rcases side_cases side x with rfl | rfl
  · rw [own, other]
    rfl
  · have back := paired side.other
    rw [other_other] at back ⊢
    rw [own, other]
    exact back

/-- Both ends of the direction that `side` writes are closed. -/
theorem paired_write (side : Side) (paired : Paired I) (own : J side = dropWrite (I side))
    (other : J side.other = dropRead (I side.other)) : Paired J := by
  apply paired_read side.other paired other
  rw [other_other]
  exact own

/-- A side has no interest left when both directions are closed. -/
theorem paired_idle (paired : Paired I) (side : Side) :
    I side = opNoop ↔ ∀ x, (I x).read = false ∧ (I x).write = false := by
  constructor
  · intro idle x
    have reads := paired side
    have writes := paired side.other
    rw [other_other] at writes
    rw [idle] at reads writes
    rcases side_cases side x with rfl | rfl
    · rw [idle]
      exact ⟨rfl, rfl⟩
    · exact ⟨writes, reads.symm⟩
  · intro closed
    obtain ⟨read, write⟩ := closed side
    cases eq : I side with
    | mk r w =>
      rw [eq] at read write
      simp only at read write
      rw [read, write]
      rfl

/-- A relay event keeps the pairing, and leaves COPY when nothing is left to do. -/
theorem relay_paired (paired : Paired I) (shape : c.Copying I) (bothOpen : ∀ x, c.fdOf x ≠ -1)
    (ran : e = .read ∧ copyRead o fd c = .ok (ret, d) ∨
      e = .write ∧ copyWrite o fd c = .ok (ret, d)) : ∃ x J, Relayed x c d J ret ∧ Paired J := by
  rcases ran with ⟨-, ran⟩ | ⟨-, ran⟩
  · obtain ⟨x, J, -, relayed, ⟨bytes, -, -, rfl, -⟩ | ⟨got, -, -, own, other, -⟩⟩ :=
      copyRead_ok shape ran
    · exact ⟨x, J, relayed, paired⟩
    · rw [if_pos (bothOpen x.other)] at other
      exact ⟨x, J, relayed, paired_read x paired own other⟩
  · obtain ⟨x, J, -, relayed, ⟨bytes, -, rfl, -⟩ | ⟨-, own, other, -⟩⟩ := copyWrite_ok shape ran
    · exact ⟨x, J, relayed, paired⟩
    · rw [if_pos (bothOpen x.other)] at other
      exact ⟨x, J, relayed, paired_write x paired own other⟩

/-- A relay between two open descriptors is paired. -/
def Session.Pairs (s : Session) : Prop :=
  s.In .copy → (∀ side, s.conn.fdOf side ≠ -1) → ∃ I, s.conn.Copying I ∧ Paired I

theorem pairs_event (pairs : s.Pairs) (at' : s.In .copy) (h : handleEvent e o fd s = .ok t)
    (shape : s.conn.Copying I) : t.Pairs := by
  intro inside bothOpen
  obtain ⟨ret, mid, ran, stm, goes⟩ := copy_event at' shape h
  obtain ⟨-, same⟩ | ⟨rfl, -⟩ := goes
  · obtain ⟨x, I', more, relayed, -⟩ := relay_quiet shape ran
    have fds : s.conn.fdOf = t.conn.fdOf := by
      rw [same]
      exact (relayed_fdOf relayed).symm
    rw [← fds] at bothOpen
    obtain ⟨J, shape', paired⟩ := pairs at' bothOpen
    obtain ⟨y, J', relayed', paired'⟩ := relay_paired paired shape' bothOpen ran
    rw [same]
    exact ⟨J', relayed'.shape, paired'⟩
  · have now := inside.2
    rw [stm] at now
    exact absurd (Option.some.inj now) (by decide)

theorem pairs_step (pairs : s.Pairs) (place : k.Place s) (step : Guarded s l t)
    (follows : k.Step act k') (place' : k'.Place t) : t.Pairs := by
  by_cases here : s.In .copy
  · have phase := (copying_phase place).mpr here
    simp only [Course.Place, phase] at place
    obtain ⟨-, -, -, I, shape, -⟩ := place
    cases l with
    | event e fd o =>
      cases e with
      | read | write => exact pairs_event pairs here step.2 shape
      | block =>
        obtain ⟨handler, mid, next, picked, -⟩ := socks_event (s := takeJob fd s) here step.2
        cases picked
    | resolved answer fd =>
      obtain rfl := Except.ok.inj step.2
      exact pairs
    | env w =>
      obtain rfl := Except.ok.inj step.2
      exact pairs
  · intro inside _
    have before : k.phase ≠ .copying := fun phase => here ((copying_phase place).mp phase)
    have phase := step_copying follows before ((copying_phase place').mpr inside)
    simp only [Course.Place, phase] at place
    obtain ⟨fd, mid, arrived, -⟩ := enters_copy place.1 inside step
    obtain ⟨shape, -⟩ := copyInit_ok arrived
    exact ⟨_, shape, fun _ => rfl⟩

theorem pairs_run {ls : List (Session × Label)} (start : JustAccepted true s)
    (run : Run Guarded s ls t) : t.Pairs := by
  induction run with
  | start =>
    intro copying
    obtain ⟨-, -, stm, -⟩ := accepted_footing start
    have current := copying.2
    rw [stm] at current
    cases current
  | @next ls u v l run step ih =>
    obtain ⟨k, place⟩ := run_place start run
    obtain ⟨act, k', follows, place', -⟩ := step_advances place step
    exact pairs_step ih place step follows place'

/-! ## What the selector watches -/

theorem bufferCanWrite_iff {b : Buffer} : bufferCanWrite b = true ↔ 0 < bufferWritePtr b :=
  decide_eq_true_iff

/-- A buffer that has no room has unread bytes. -/
theorem room_or_bytes {b : Buffer} (limit : b.limit = rawBuffSize) (rewound : b.Rewound) :
    bufferCanWrite b = true ∨ bufferCanRead b = true := by
  by_cases unread : bufferReadPtr b = []
  · refine Or.inl (bufferCanWrite_iff.mpr ?_)
    rw [(rewound.room unread).2.2, limit]
    decide
  · exact Or.inr (bufferCanRead_iff.mpr unread)

theorem flows_watched (shape : c.Copying I) (paired : Paired I) (watched : c.Watched I)
    (roomy : c.Roomy) (bothOpen : ∀ side, c.fdOf side ≠ -1) : c.Flows I := by
  have watches := fun side => (watched side (bothOpen side)).2
  refine ⟨shape, fun side => ?_, fun side => ?_, fun side => ?_, ?_⟩
  · rw [paired side]
  · rw [watches side]
    exact Bool.and_eq_true_iff
  · rw [watches side]
    exact Bool.and_eq_true_iff
  · rintro ⟨side, reads⟩
    obtain ⟨limit, rewound⟩ := roomy side.rb
    rcases room_or_bytes limit rewound with room | unread
    · refine ⟨side, fun idle => ?_⟩
      have set := congrArg FdInterest.read ((watches side).symm.trans idle)
      simp only [Socks5.wants, reads, room] at set
      cases set
    · -- the bytes wait for the side that writes them
      refine ⟨side.other, fun idle => ?_⟩
      have set := congrArg FdInterest.write ((watches side.other).symm.trans idle)
      have writes : (I side.other).write = true := (paired side).symm.trans reads
      simp only [Socks5.wants, Side.wb, other_other, writes, unread] at set
      cases set

/-- The events of the relay are for its two descriptors. -/
theorem delivered_side (fits : k.Fits c) (delivered : Deliverable e fd c)
    (isOpen : c.originFd ≠ -1) : ∃ side, copyPtr fd c = some side := by
  have held : c.Holds fd := ⟨delivered.1.2, delivered.2.1⟩
  have socket := fits.footing.originFd.resolve_right isOpen
  unfold copyPtr
  rcases fits.footing.held fd held with rfl | ⟨-, rfl⟩
  · rw [if_neg (fits_distinct fits), if_pos rfl]
    exact ⟨_, rfl⟩
  · rw [if_pos socket.symm]
    exact ⟨_, rfl⟩

theorem delivered_read (flows : c.Flows I) (fits : k.Fits c) (isOpen : c.originFd ≠ -1)
    (delivered : Deliverable .read fd c) : c.ReadsInto fd := by
  obtain ⟨side, found⟩ := delivered_side fits delivered isOpen
  have watched : (c.sel.fds fd).interest.read = true := delivered.2.2
  rw [copyPtr_some found] at watched
  have room := bufferCanWrite_iff.mp ((flows.read side).mp watched).2
  refine ⟨side, found, room, fun o ended => ?_⟩
  obtain ⟨bytes, got, cut⟩ := Option.map_eq_some_iff.mp ended
  rw [got]
  rcases List.take_eq_nil_iff.mp cut with none' | empty
  · omega
  · rw [empty]

theorem delivered_write (flows : c.Flows I) (fits : k.Fits c) (isOpen : c.originFd ≠ -1)
    (delivered : Deliverable .write fd c) : c.WritesFrom fd := by
  obtain ⟨side, found⟩ := delivered_side fits delivered isOpen
  have watched : (c.sel.fds fd).interest.write = true := delivered.2.2
  rw [copyPtr_some found] at watched
  have unread := bufferCanRead_iff.mp ((flows.write side).mp watched).2
  exact ⟨side, found, List.length_pos_iff.mpr unread⟩

/-- In every reachable COPY state with two open descriptors: a direction is open at both of
its ends or at neither, the selector watches each descriptor for what it can do and one of
them while a direction is open, no call of the relay moves nothing for want of room or bytes,
and DONE is returned exactly when both directions are closed. -/
theorem copy_interests {ls : List (Session × Label)} (start : JustAccepted true s)
    (run : Run Guarded s ls t) (at' : t.In .copy) (bothOpen : ∀ side, t.conn.fdOf side ≠ -1) :
    ∃ I, t.conn.Flows I ∧
      (∀ fd, Deliverable .read fd t.conn → t.conn.ReadsInto fd) ∧
      (∀ fd, Deliverable .write fd t.conn → t.conn.WritesFrom fd) ∧
      ∀ (e : Event) fd o ret d, (e = .read ∧ copyRead o fd t.conn = .ok (ret, d) ∨
          e = .write ∧ copyWrite o fd t.conn = .ok (ret, d)) →
        ∃ J, d.Copying J ∧ (ret = SocksV5State.done.num ↔
          ∀ side, (J side).read = false ∧ (J side).write = false) := by
  obtain ⟨k, place⟩ := run_place start run
  have phase := (copying_phase place).mpr at'
  simp only [Course.Place, phase] at place
  obtain ⟨-, fits, -, I, shape, watched⟩ := place
  obtain ⟨J, shape', paired⟩ := pairs_run start run at' bothOpen
  -- the record has one interest a side
  have same : J = I := by
    funext side
    have eq := (shape side).symm.trans (shape' side)
    exact (congrArg CopySt.interest (Except.ok.inj eq)).symm
  rw [same] at paired
  have flows := flows_watched shape paired watched (roomy_run start run) bothOpen
  have isOpen : t.conn.originFd ≠ -1 := bothOpen .orig
  refine ⟨I, flows, fun fd => delivered_read flows fits isOpen,
    fun fd => delivered_write flows fits isOpen, fun e fd o ret d ran => ?_⟩
  obtain ⟨x, J, relayed, paired'⟩ := relay_paired paired shape bothOpen ran
  refine ⟨J, relayed.shape, ?_⟩
  rw [relayed.ret, ← paired_idle paired' x]
  by_cases idle : J x = opNoop
  · simp only [idle, if_true]
  · simp only [idle, if_false, iff_false]
    decide

end

/-- The first client has sent a byte and then ended its stream. -/
theorem copy_interests_half : ∃ s ls t, JustAccepted true s ∧ Run Guarded s ls t ∧ t.In .copy ∧
    (∀ side, t.conn.fdOf side ≠ -1) ∧ ∃ I, t.conn.Flows I ∧ Deliverable .read 6 t.conn ∧
      t.conn.ReadsInto 6 := by
  obtain ⟨s, ls, t, start, run, good⟩ := accepted_history true firstAccept openWorld 7
    (opensRelay [] ++ [received [9], received []])
    (fun _ t => decide (t.In .copy) && decide (t.conn.clientFd ≠ -1) &&
      decide (t.conn.originFd ≠ -1) && decide (Deliverable .read 6 t.conn))
    rfl (by decide) (openWorld_ready (by decide)) (by decide +kernel)
  simp only [Bool.and_eq_true, decide_eq_true_eq] at good
  obtain ⟨⟨⟨at', client⟩, origin⟩, delivered⟩ := good
  have bothOpen : ∀ side, t.conn.fdOf side ≠ -1 := by
    intro side
    cases side
    · exact client
    · exact origin
  obtain ⟨I, flows, reads, -⟩ := copy_interests start run at' bothOpen
  exact ⟨s, ls, t, start, run, at', bothOpen, I, flows, delivered, reads 6 delivered⟩

end SocksProxy
