import SocksProxy.Relay
import SocksProxy.Simulation

/-!
# Every step of a session on its course

The reply, the relay and the terminal states, and then the step: whatever the
running server does to a session, its course goes on with it.
-/

namespace SocksProxy

open Lib

section
variable {k : Course} {c d : Conn} {s t : Session} {l : Label} {e : Event} {o : Outcome} {fd : Int}
  {mid : Conn}

/-! ## REQUEST_WRITE -/

theorem fits_phase (h : k.Fits c) (phase : Phase) : ({ k with phase := phase } : Course).Fits c :=
  fits_course h rfl rfl rfl rfl rfl rfl rfl

/-- The descriptor of the origin is not a socket that was given up. -/
theorem originFd_live (h : k.Fits c) (on : k.registered = true) (closed : k.isOpen = false) :
    c.originFd ≠ k.socket := by
  have originFd := h.originFd
  simp only [Course.originFd, closed, Bool.false_eq_true, if_false] at originFd
  rw [originFd]
  exact (valid_ne (h.footing.origin on).1).symm

theorem client_live (h : k.Fits c) (_ : k.registered = true) (_ : k.isOpen = false) :
    c.clientFd ≠ k.socket := client_ne_socket h

/-- The writing client's descriptor is the one the event is for. -/
theorem writes_delivered (writes : k.Writes c) (delivered : Deliverable .write fd c) :
    fd = c.clientFd := by
  rcases footing_delivered writes.fits.footing delivered with same | ⟨on, same⟩
  · exact same
  · have noop := writes.origin on
    have watched : (c.interestOf fd).write = true := delivered.2.2
    rw [same, noop] at watched
    cases watched

theorem writing_advances (phase : k.phase = .writing) (place : k.Place s)
    (delivered : e ≠ .block → Deliverable e fd s.conn) (h : handleEvent e o fd s = .ok t) :
    k.Advances s (.event e fd o) t := by
  simp only [Course.Place, phase] at place
  obtain ⟨at', writes⟩ := place
  obtain ⟨handler, mid, next, picked, ran, stm, entered⟩ := socks_event at' h
  obtain rfl : e = .write := by
    cases e
    · cases picked
    · rfl
    · cases picked
  obtain rfl : requestWrite o fd = handler := Option.some.inj picked
  obtain rfl := writes_delivered writes (delivered (by decide))
  have current : t.stm.current = some next.num := by rw [stm]
  have conserved : ∀ {bytes}, sentBytes o s.conn.writeBuffer = some bytes →
      bufferReadPtr (s.conn.sentOff s.conn.clientFd bytes).writeBuffer = [] →
      sentTo s.conn.clientFd (s.conn.sentOff s.conn.clientFd bytes).calls =
        k.base ++ repliesOf k.said := by
    intro bytes sent flushed
    have all := sentOff_bytes sent
    rw [flushed, List.append_nil] at all
    rw [all, writes.bytes]
  rcases requestWrite_ok ran with ⟨-, ret_eq, rfl⟩ |
      ⟨bytes, sent, ⟨-, ret_eq, rfl⟩ | ⟨flushed, conn, orig, ⟨good, ret_eq, rfl⟩ | ⟨bad, ret_eq, eq⟩⟩⟩
  · obtain rfl : next = .error := SocksV5State.num_inj ret_eq
    have fits : k.Fits (s.conn.log (.send s.conn.clientFd none)) :=
      fits_same [_] writes.fits ⟨rfl, rfl, rfl, rfl, rfl, rfl, rfl, rfl⟩ rfl rfl rfl
        (by simp [Call.Quiet, Call.attempt]) rfl
    obtain ⟨ends, ended, -⟩ := enters_ends entered (Or.inr rfl) fits writes.paired stm
    exact ⟨.fail, _, .fail (Or.inr (Or.inr phase)), ⟨ends, ended⟩, trivial⟩
  · obtain rfl : next = .requestWrite := SocksV5State.num_inj ret_eq
    have same := enters_stays entered (by decide)
    refine ⟨.idle, k, .idle, ?_, fun _ _ _ at'' => absurd (in_unique at' at'') (by decide)⟩
    simp only [Course.Place, phase]
    rw [Session.In, same]
    refine ⟨⟨at'.1, current⟩, ⟨fits_sentOff writes.fits _ _, writes.paired, writes.client,
      writes.origin, writes.status, writes.request, ?_, ?_⟩⟩
    · exact (sentOff_bytes sent).trans writes.bytes
    · exact writes.ahead.trans ⟨_, (sentTo_append _ _ _).symm⟩
  · obtain rfl : next = .copy := SocksV5State.num_inj ret_eq
    obtain ⟨left, departed, arrived⟩ := enters_moves entered (by decide) (by decide)
    obtain rfl := Except.ok.inj departed
    have arrived : copyInit s.conn.clientFd _ = .ok t.conn := arrived
    obtain ⟨conn', orig', status⟩ := writes.status
    obtain rfl : conn = conn' := OrigSt.conn.inj (orig.symm.trans orig')
    have fits := fits_sentOff writes.fits s.conn.clientFd bytes
    have watched := fits_setInterest s.conn.clientFd fits opRead (client_live writes.fits)
    have both := fits_setInterest s.conn.originFd watched opRead (originFd_live writes.fits)
    obtain ⟨shape, same, buffers, calls, tuned, watches⟩ := copyInit_ok arrived
    obtain ⟨leftSame, method⟩ := copyInit_settled arrived
    have distinct : s.conn.clientFd ≠ s.conn.originFd := by
      rcases writes.fits.footing.originFd with socket | none'
      · rw [socket]
        exact client_ne_socket writes.fits
      · rw [none']
        exact valid_ne writes.fits.footing.client.1
    have live : k.registered = true → k.isOpen = false →
        t.conn.interestOf k.socket = opNoop := by
      intro on closed
      have kept := tuned.outside k.socket (by
        simp only [List.mem_cons, List.not_mem_nil, or_false, not_or]
        exact ⟨(originFd_live writes.fits on closed).symm, (client_live writes.fits on closed).symm⟩)
      unfold Conn.interestOf
      rw [kept]
      exact both.stale on closed
    have fits' : k.Fits t.conn :=
      fits_retuned _ [] both same tuned (by rw [method]; exact both.footing.method)
        (by rw [calls, List.append_nil]) (by simp) leftSame live
    refine ⟨.copy, _, .copy phase (status ▸ good), ⟨⟨fits'.socks, current⟩, fits_phase fits' _,
      writes.paired, _, shape, watches distinct⟩, fun _ => ?_⟩
    rw [calls, same.clientFd]
    exact conserved sent flushed
  · obtain rfl : next = .done := SocksV5State.num_inj ret_eq
    obtain ⟨conn', orig', status⟩ := writes.status
    obtain rfl : conn = conn' := OrigSt.conn.inj (orig.symm.trans orig')
    have fits := fits_sentOff writes.fits s.conn.clientFd bytes
    have watched := fits_setInterest s.conn.clientFd fits opNoop (client_live writes.fits)
    have fits' : k.Fits mid := by
      rw [eq]
      split
      · exact fits_setInterest s.conn.originFd watched opNoop (originFd_live writes.fits)
      · exact watched
    have record : mid.toSocks5 = (s.conn.sentOff s.conn.clientFd bytes).toSocks5 := by
      rw [eq]
      split <;> rfl
    obtain ⟨ends, ended, more, calls, clientFd, ending⟩ :=
      enters_ends entered (Or.inl rfl) fits' writes.paired stm
    refine ⟨.close, _, .close (Or.inr (Or.inr ⟨phase, status ▸ bad⟩)), ⟨ends, ended⟩, fun _ => ?_⟩
    rw [calls, clientFd, record, sentTo_append, sent_ending ending, List.append_nil]
    exact conserved sent flushed

/-! ## COPY -/

theorem shutdowns_quiet (c : Socks5) (side : Side) (how otherHow : How) :
    ∀ call ∈ shutdowns c side how otherHow, call.Quiet := by
  intro call member
  unfold shutdowns at member
  split at member <;> simp only [List.mem_cons, List.not_mem_nil, or_false] at member
  · rcases member with rfl | rfl <;> simp [Call.Quiet, Call.attempt]
  · subst member
    simp [Call.Quiet, Call.attempt]

/-- What a relay event leaves of the record, and the calls it made. -/
theorem relay_quiet {I : Side → FdInterest} {ret : Nat} (shape : c.Copying I)
    (ran : e = .read ∧ copyRead o fd c = .ok (ret, d) ∨ e = .write ∧ copyWrite o fd c = .ok (ret, d)) :
    ∃ side I' more, Relayed side c d I' ret ∧ c.Settled d ∧ d.calls = c.calls ++ more ∧
      ∀ call ∈ more, call.Quiet := by
  have with' : ∀ {call : Call} {side how otherHow}, call.Quiet →
      ∀ other ∈ call :: shutdowns c.toSocks5 side how otherHow, other.Quiet := by
    intro call side how otherHow quiet other member
    rcases List.mem_cons.mp member with rfl | member
    · exact quiet
    · exact shutdowns_quiet _ _ _ _ other member
  have recv : ∀ {got}, (Call.recv fd got).Quiet := ⟨rfl, by simp⟩
  have send : ∀ {got}, (Call.send fd got).Quiet := ⟨rfl, by simp⟩
  rcases ran with ⟨-, ran⟩ | ⟨-, ran⟩
  · obtain ⟨side, I', -, relayed, ⟨bytes, -, -, -, -, -, calls⟩ | ⟨got, -, -, -, -, -, calls⟩⟩ :=
      copyRead_ok shape ran
    · exact ⟨side, I', _, relayed, copyRead_settled ran, calls, by simp [recv]⟩
    · exact ⟨side, I', _, relayed, copyRead_settled ran, calls, with' recv⟩
  · obtain ⟨side, I', -, relayed, ⟨bytes, -, -, -, -, calls⟩ | ⟨-, -, -, -, calls⟩⟩ :=
      copyWrite_ok shape ran
    · exact ⟨side, I', _, relayed, copyWrite_settled ran, calls, by simp [send]⟩
    · exact ⟨side, I', _, relayed, copyWrite_settled ran, calls, with' send⟩

theorem relayed_fits {side : Side} {I : Side → FdInterest} {ret : Nat} {more : List Call}
    (fits : k.Fits c) (relayed : Relayed side c d I ret) (settled : c.Settled d)
    (calls : d.calls = c.calls ++ more) (quiet : ∀ call ∈ more, call.Quiet) : k.Fits d := by
  refine fits_retuned _ more fits relayed.same relayed.tuned
    (by rw [settled.2]; exact fits.footing.method) calls quiet settled.1 fun on closed => ?_
  have apart : k.socket ∉ [c.fdOf side, c.fdOf side.other] := by
    have client := (client_live fits on closed).symm
    have origin := (originFd_live fits on closed).symm
    cases side <;>
      simp only [List.mem_cons, List.not_mem_nil, or_false, not_or] <;>
      first | exact ⟨client, origin⟩ | exact ⟨origin, client⟩
  unfold Conn.interestOf
  rw [relayed.tuned.outside _ apart]
  exact fits.stale on closed

theorem fits_distinct (fits : k.Fits c) : c.clientFd ≠ c.originFd := by
  rcases fits.footing.originFd with socket | none'
  · rw [socket]
    exact client_ne_socket fits
  · rw [none']
    exact valid_ne fits.footing.client.1

theorem copying_phase (place : k.Place s) : k.phase = .copying ↔ s.In .copy := by
  constructor
  · intro phase
    simp only [Course.Place, phase] at place
    exact place.1
  · intro at'
    have covers := place_covers place at'
    revert covers
    cases k.phase <;> simp [Phase.covers]

theorem copying_advances (phase : k.phase = .copying) (place : k.Place s)
    (h : handleEvent e o fd s = .ok t) : k.Advances s (.event e fd o) t := by
  simp only [Course.Place, phase] at place
  obtain ⟨at', fits, paired, I, shape, watched⟩ := place
  obtain ⟨ret, mid, ran, stm, goes⟩ := copy_event at' shape h
  obtain ⟨side, I', more, relayed, settled, calls, quiet⟩ := relay_quiet shape ran
  have fits' := relayed_fits fits relayed settled calls quiet
  rcases goes with ⟨rfl, same⟩ | ⟨rfl, fin⟩
  · refine ⟨.idle, k, .idle, ?_, fun _ _ _ at'' => absurd (in_unique at' at'') (by decide)⟩
    simp only [Course.Place, phase]
    rw [Session.In, same]
    exact ⟨⟨fits'.socks, by rw [stm]⟩, fits', paired, I', relayed.shape,
      relayed.watched (fits_distinct fits)⟩
  · have ended := done_ended fits' paired fin
    have socks : t.conn.isSocks = true := by
      obtain ⟨_, _, record, -⟩ := @finish_record true _ _ fin
      rw [record]
      exact fits'.socks
    exact ⟨.close, _, .close (Or.inr (Or.inl phase)), ⟨⟨socks, by rw [stm]⟩, ended⟩,
      fun writing => absurd (phase.symm.trans writing) (by decide)⟩

/-! ## The step -/

/-- A terminal state has no handler. -/
theorem no_event_failed (at' : s.In .error) : handleEvent e o fd s ≠ .ok t := by
  intro h
  obtain ⟨handler, mid, next, picked, -⟩ := socks_event at' h
  cases e <;> cases picked

/-- While there is no item for the socket, the events are the client's. -/
theorem client_held (fits : k.Fits c) (off : k.registered = false) (held : c.Holds fd) :
    fd = c.clientFd := by
  rcases fits.footing.held fd held with same | ⟨on, -⟩
  · exact same
  · exact absurd (off.symm.trans on) (by decide)

theorem event_advances (place : k.Place s) (held : s.conn.Holds fd)
    (delivered : e ≠ .block → Deliverable e fd s.conn)
    (opens : ∀ n : Nat, o.socket = some n → s.conn.isOpen n = false)
    (h : handleEvent e o fd s = .ok t) : k.Advances s (.event e fd o) t := by
  cases phase : k.phase with
  | talking =>
    have facts := place
    simp only [Course.Place, phase] at facts
    obtain ⟨-, -, eq, fits, -⟩ := facts
    obtain rfl := client_held fits (by rw [eq]; rfl) held
    exact talking_advances phase place h
  | reading =>
    have facts := place
    simp only [Course.Place, phase] at facts
    obtain ⟨-, -, eq, fits, -⟩ := facts
    obtain rfl := client_held fits (by rw [eq]; rfl) held
    exact reading_advances phase place opens h
  | broken =>
    have facts := place
    simp only [Course.Place, phase] at facts
    obtain ⟨-, -, eq, fits⟩ := facts
    obtain rfl := client_held fits (by rw [eq]; rfl) held
    exact absurd h (broken_stuck phase place delivered)
  | resolving =>
    have facts := place
    simp only [Course.Place, phase] at facts
    obtain ⟨-, -, eq, fits, -⟩ := facts
    obtain rfl := client_held fits (by rw [eq]; rfl) held
    exact resolving_advances phase place opens h
  | pending | immediate | failing =>
    simp only [Course.Place, phase] at place
    obtain ⟨at', tries, watches⟩ := place
    exact trying_advances at' tries watches (fun write => write ▸ delivered (by simp [write])) h
  | writing => exact writing_advances phase place delivered h
  | copying => exact copying_advances phase place h
  | done =>
    simp only [Course.Place, phase] at place
    exact absurd h (no_event_done place.1)
  | failed =>
    simp only [Course.Place, phase] at place
    exact absurd h (no_event_failed place.1)

/-- The session goes on as its course does, whatever the step. -/
theorem step_advances (place : k.Place s) (step : Guarded s l t) : k.Advances s l t := by
  obtain ⟨allowed, fired⟩ := step
  cases l with
  | event e fd o =>
    cases e with
    | read => exact event_advances place ⟨allowed.1.1.2, allowed.1.2.1⟩ (fun _ => allowed.1) allowed.2 fired
    | write => exact event_advances place ⟨allowed.1.1.2, allowed.1.2.1⟩ (fun _ => allowed.1) allowed.2 fired
    | block =>
      -- the job is off the list before the event is handled
      have taken : k.Place (takeJob fd s) := place_framed place (framed_takeJob fd s)
      obtain ⟨act, k', step, place', explains⟩ :=
        event_advances (e := .block) taken ⟨allowed.1.1.2, allowed.1.2.1⟩
          (fun ne => absurd rfl ne) allowed.2 fired
      refine ⟨act, k', step, place', ?_⟩
      cases act <;> exact explains
  | resolved answer fd =>
    obtain rfl := Except.ok.inj fired
    exact ⟨.idle, k, .idle, place_framed place (framed_resolved answer _ s),
      fun _ _ label => nomatch label⟩
  | env w =>
    obtain rfl := Except.ok.inj fired
    exact ⟨.idle, k, .idle, place_framed place (framed_env allowed), fun _ _ label => nomatch label⟩

/-! ## Into COPY -/

/-- A course comes to the relay from a reply. -/
theorem step_copying {k' : Course} {act : Act} (follows : k.Step act k') (before : k.phase ≠ .copying)
    (phase' : k'.phase = .copying) : k.phase = .writing := by
  cases follows with
  | idle => exact absurd phase' before
  | copy phase => exact phase
  | retry | retryAfter | first =>
    obtain waits | answered | failed := attempt_phase _ _ _ _
    · exact nomatch phase'.symm.trans waits
    · exact nomatch phase'.symm.trans answered
    · exact nomatch phase'.symm.trans failed
  | _ => cases phase'

/-- The step that starts the relay ends in `copy_init`. -/
theorem enters_copy (at' : s.In .requestWrite) (inside : t.In .copy) (step : Guarded s l t) :
    ∃ fd mid, copyInit fd mid = .ok t.conn ∧ mid.readBuffer = s.conn.readBuffer := by
  have moved : t.stm ≠ s.stm := by
    intro same
    have now := inside.2
    rw [same, at'.2] at now
    exact absurd (Option.some.inj now) (by decide)
  cases l with
  | resolved answer fd =>
    obtain rfl := Except.ok.inj step.2
    exact absurd rfl moved
  | env w =>
    obtain rfl := Except.ok.inj step.2
    exact absurd rfl moved
  | event e fd o =>
    cases e with
    | read =>
      obtain ⟨handler, mid, next, picked, -⟩ := socks_event at' step.2
      cases picked
    | block =>
      obtain ⟨handler, mid, next, picked, -⟩ := socks_event (s := takeJob fd s) at' step.2
      cases picked
    | write =>
      obtain ⟨handler, mid, next, picked, ran, stm, entered⟩ := socks_event at' step.2
      obtain rfl : requestWrite o fd = handler := Option.some.inj picked
      obtain rfl : next = .copy := by
        have now := inside.2
        rw [stm] at now
        exact SocksV5State.num_inj (Option.some.inj now)
      obtain ⟨left, departed, arrived⟩ := enters_moves entered (by decide) (by decide)
      obtain rfl := Except.ok.inj departed
      refine ⟨fd, mid, arrived, ?_⟩
      rcases requestWrite_ok ran with ⟨-, ret, -⟩ |
          ⟨bytes, -, ⟨-, ret, -⟩ | ⟨-, conn, -, ⟨-, -, rfl⟩ | ⟨-, ret, -⟩⟩⟩
      · exact absurd ret (by decide)
      · exact absurd ret (by decide)
      · rfl
      · exact absurd ret (by decide)

/-! ## The run -/

/-- An accepted connection is where its course starts. -/
theorem accepted_place (start : JustAccepted true s) : (Course.fresh .talking []).Place s := by
  obtain ⟨footing, interest, stm, self, clientFd, clientAddr, record⟩ := accepted_footing start
  have fits : (Course.fresh .talking []).Fits s.conn := by
    refine ⟨?_, footing, ?_, ?_, ?_, ?_, ?_, ?_, ?_, ?_⟩
    all_goals first | rw [record] | skip
    · rfl
    · rfl
    · exact fun isOpen => nomatch isOpen
    · rfl
    · exact List.not_mem_nil
    · rfl
    · rfl
    · exact fun established => nomatch established
    · exact fun on => nomatch on
  refine ⟨Or.inl ⟨Or.inl ⟨by rw [stm], by rw [stm]; rfl⟩, interest⟩, ?_, rfl, fits, ?_, ?_, ?_⟩
  · rw [record]
    intro d member
    cases member
  · rw [record]
    exact ⟨_, rfl, rfl⟩
  · rw [record]
    rfl
  · rw [record]
    exact fun _ => rfl

/-- What the acts of a course keep, under a condition on the steps, holds of the course
of every run whose steps all meet it. `G` also sees the steps taken so far. -/
theorem place_run {C : Session → Label → Prop} {G : List (Session × Label) → Course → Prop}
    (keep : ∀ {ls k k' s l t act}, G ls k → k.Place s → C s l → k.Step act k' → k'.Place t →
      Explains k s l t act → G (ls ++ [(s, l)]) k')
    (place : k.Place s) (init : G [] k) {ls : List (Session × Label)} (run : Run Guarded s ls t)
    (cond : ∀ p ∈ ls, C p.1 p.2) : ∃ k, k.Place t ∧ G ls k := by
  induction run with
  | start => exact ⟨k, place, init⟩
  | @next ls t u l _ step ih =>
    obtain ⟨k, place, good⟩ := ih fun p member => cond p (List.mem_append_left _ member)
    obtain ⟨act, k', follows, place', explains⟩ := step_advances place step
    exact ⟨k', place', keep good place (cond (t, l) (by simp)) follows place' explains⟩

/-- The same for what does not depend on the steps. -/
theorem course_run {C : Session → Label → Prop} {G : Course → Prop}
    (keep : ∀ {k k' s l t act}, G k → k.Place s → C s l → k.Step act k' → k'.Place t →
      Explains k s l t act → G k')
    (place : k.Place s) (init : G k) {ls : List (Session × Label)} (run : Run Guarded s ls t)
    (cond : ∀ p ∈ ls, C p.1 p.2) : ∃ k, k.Place t ∧ G k :=
  place_run (G := fun _ k => G k) keep place init run cond

/-- Every reachable session is on a course. -/
theorem run_place {ls : List (Session × Label)} (start : JustAccepted true s)
    (run : Run Guarded s ls t) : ∃ k : Course, k.Place t := by
  obtain ⟨k, place, -⟩ := course_run (C := fun _ _ => True) (G := fun _ => True)
    (fun _ _ _ _ _ _ => trivial) (accepted_place start) trivial run (fun _ _ => trivial)
  exact ⟨k, place⟩

end

end SocksProxy
