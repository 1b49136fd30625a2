import SocksProxy.Passage

/-!
# A session that waits to write goes on

In REQUEST_CONNECTING and in REQUEST_WRITE the selector watches a descriptor of the
session for writing, unless an attempt was accepted at once, and handles its event to
the end: no hook aborts, and no descriptor is without its item.
-/

namespace SocksProxy

open Lib

section
variable {k : Course} {c last mid : Conn} {s t : Session} {ls : List (Session × Label)} {e : Event}
  {o : Outcome} {fd : Int} {state : SocksV5State} {handler : Conn → Result (Nat × Conn)}

/-! ## The event -/

theorem num_le (state : SocksV5State) : state.num ≤ SocksV5State.error.num := by
  cases state <;> decide

/-- The machine of a SOCKS session has all the states of its table. -/
theorem maxState_run (start : JustAccepted true s) (run : Run Guarded s ls t) :
    t.stm.maxState = SocksV5State.error.num := by
  obtain ⟨-, -, stm, -⟩ := accepted_footing start
  refine run.always (I := fun s => s.stm.maxState = SocksV5State.error.num)
    (fun t l u same step => ?_) (by rw [stm]; rfl)
  cases l with
  | event e fd o =>
    cases e
    all_goals
      obtain ⟨_, _, _, _, _, _, _, _, _, _, _, stm, -⟩ := handleEvent_ok step.2
      exact (congrArg StateMachine.maxState stm).trans same
  | resolved answer fd =>
    obtain rfl := Except.ok.inj step.2
    exact same
  | env w =>
    obtain rfl := Except.ok.inj step.2
    exact same

theorem lives_on {P : Prop} (going : state ∉ [.done, .error]) :
    state = .done ∨ state = .error → P := by
  rintro (rfl | rfl)
  · exact absurd (by decide) going
  · exact absurd (by decide) going

/-- An event is handled if its handler, the hooks after it and the end of the connection
are. -/
theorem handleEvent_goes (next : SocksV5State) (at' : s.In state)
    (table : s.stm.maxState = SocksV5State.error.num)
    (picked : e.handler (state.entry o fd) = some handler)
    (ran : handler s.conn = .ok (next.num, mid))
    (crossed : state = next ∧ last = mid ∨ state ≠ next ∧ ∃ left,
      runHook (state.entry o fd).onDeparture mid = .ok left ∧
        runHook (next.entry o fd).onArrival left = .ok last)
    (ends : next = .done ∨ next = .error → ∃ d, socksv5Done last = .ok d) :
    ∃ t, handleEvent e o fd s = .ok t := by
  have jumped : jump (clientStatbl o fd) s.stm next.num mid =
      .ok ({ s.stm with current := some next.num }, last) := by
    unfold jump
    rw [if_neg (by rw [table]; exact Nat.not_lt.mpr (num_le next)), at'.2]
    rcases crossed with ⟨rfl, rfl⟩ | ⟨ne, left, departed, arrived⟩
    · rw [if_pos rfl, ← at'.2]
    · rw [if_neg fun eq => ne (SocksV5State.num_inj (Option.some.inj eq))]
      simp only [stateAt_ok.mpr (clientStatbl_get o fd state), ok_bind, departed,
        stateAt_ok.mpr (clientStatbl_get o fd next), arrived]
  have handled : stmHandler e.handler (statesOf s.conn.isSocks o fd) s.stm s.conn =
      .ok (next.num, { s.stm with current := some next.num }, last) := by
    simp only [stmHandler, handleFirst, at'.2, statesOf, at'.1, if_true, ok_bind,
      stateAt_ok.mpr (clientStatbl_get o fd state), picked, ran, jumped]
  unfold handleEvent
  rw [handled]
  simp only [ok_bind, at'.1, if_true]
  by_cases terminal : next.num = SocksV5State.error.num ∨ next.num = SocksV5State.done.num
  · obtain ⟨d, done⟩ := ends (terminal.symm.imp SocksV5State.num_inj SocksV5State.num_inj)
    rw [if_pos terminal, done]
    exact ⟨_, rfl⟩
  · rw [if_neg terminal]
    exact ⟨_, rfl⟩

/-! ## The end of the connection -/

theorem doneFd_goes (registered : fd ≠ -1 → c.sel.Registered fd) : ∃ d, doneFd fd c = .ok d := by
  unfold doneFd
  by_cases none' : fd = -1
  · rw [if_neg (not_not_intro none')]
    exact ⟨_, rfl⟩
  · have status := (unregister_eq handleClose c.sel c fd).1
    rw [if_pos (registered none')] at status
    rw [if_pos none']
    simp only
    rw [if_pos (show (c.unregister fd).1 = .success from status)]
    exact ⟨_, rfl⟩

theorem origin_apart (h : k.Fits c) (isOpen : c.originFd ≠ -1) : c.originFd ≠ c.clientFd := by
  rw [h.footing.originFd.resolve_right isOpen]
  exact h.footing.apart

/-- An open origin socket has its item. -/
theorem origin_registered (h : k.Fits c) (paired : k.Paired) (isOpen : c.originFd ≠ -1) :
    c.sel.Registered c.originFd := by
  have holds : c.Holds (c.fdOf .orig) := holds_of_open h paired isOpen
  obtain ⟨on, -⟩ := (h.footing.held _ holds).resolve_left (origin_apart h isOpen)
  rw [h.footing.originFd.resolve_right isOpen]
  exact (h.footing.origin on).registered

/-- Both descriptors of a record are unregistered. -/
theorem done_goes (h : k.Fits c) (paired : k.Paired) : ∃ d, socksv5Done c = .ok d := by
  obtain ⟨d, first⟩ := doneFd_goes (c := c) fun _ => h.footing.client.registered
  obtain ⟨-, -, others⟩ := doneFd_item h.footing.client h.socks first
  unfold socksv5Done
  rw [first, ok_bind]
  refine doneFd_goes fun isOpen => ?_
  unfold FdSelector.Registered
  rw [others _ (origin_apart h isOpen)]
  exact origin_registered h paired isOpen

/-! ## REQUEST_CONNECTING -/

theorem connectionFailed_goes {x : Connecting} (conn : c.orig = .conn x) (status : SocksReplyStatus) :
    ∃ r, connectionFailed status c = .ok r := by
  simp [connectionFailed, setConnStatus_ok conn]

theorem connection_goes {x : Connecting} (o : Outcome) (fd : Int) (conn : c.orig = .conn x)
    (request : c.Requested) : ∃ r, connection o fd c = .ok r := by
  obtain ⟨d, member, -⟩ := request
  simp only [connection]
  split
  · split
    · refine connectionFailed_goes (x := x) ?_ _
      exact conn
    · split
      · obtain ⟨r, failed⟩ := connectionFailed_goes (x := x)
          (c := ((c.attempted _).setInterest fd opNoop |>.registerOrigin o opWrite).2) conn
          .generalSocksServerFailure
        exact bind_goes failed ⟨_, rfl⟩
      · exact ⟨_, rfl⟩
  · refine bind_goes (a := d) ?_ (connectionFailed_goes (x := x) ?_ _)
    · exact request_ok.mpr member
    · exact conn
  · split
    · refine connectionFailed_goes (x := x) ?_ _
      exact conn
    · split
      · refine connectionFailed_goes (x := x) ?_ _
        exact conn
      · exact ⟨_, rfl⟩

theorem nextAddress_goes {x : Connecting} (conn : c.orig = .conn x) (request : c.Requested)
    (a : AddrInfo) (rest : List AddrInfo) : ∃ r, nextAddress o fd a rest c = .ok r := by
  obtain ⟨addr, moved, -⟩ := setOriginAddr_eq a rest c
  obtain ⟨r, ran⟩ := connection_goes o fd (c := c.movedOn (a :: rest) addr) conn request
  refine bind_goes (a := r) ?_ ⟨_, rfl⟩
  rw [moved]
  exact ran

theorem connectingWrite_goes (o : Outcome) (fd : Int) (h : k.Tries c) :
    ∃ r, connectingWrite o fd c = .ok r := by
  obtain ⟨d, member, -⟩ := h.request
  have stored : ∀ {c' : Conn} (status : SocksReplyStatus), c'.orig = c.orig →
      c'.setConnStatus status = .ok { c' with orig := .conn ⟨c.clientFd, -1, status⟩ } :=
    fun status same => setConnStatus_ok (same.trans h.conn)
  simp only [connectingWrite, Socks5.conn, h.conn, ok_bind]
  split
  · split
    · exact nextAddress_goes h.conn h.request _ _
    · exact ⟨_, rfl⟩
  · split
    · exact bind_goes (stored _ rfl) ⟨_, rfl⟩
    · refine bind_goes (a := d) ?_ ?_
      · exact request_ok.mpr member
      · split
        · exact ⟨_, rfl⟩
        · exact ⟨_, rfl⟩
    · rename_i e _
      refine bind_goes (stored (errnoToSocks e) rfl) ?_
      split
      · refine nextAddress_goes (x := ⟨c.clientFd, -1, errnoToSocks e⟩) ?_ ?_ _ _
        · rfl
        · exact h.request
      · exact ⟨_, rfl⟩
      · refine bind_goes (a := d) ?_ ⟨_, rfl⟩
        exact request_ok.mpr member

theorem connectingClose_goes (fd : Int) (h : c.Requested) : ∃ d, connectingClose fd c = .ok d := by
  obtain ⟨d, member, kept⟩ := h
  simp only [connectingClose, request_ok.mpr member, ok_bind]
  split
  · exact ⟨_, rfl⟩
  · exact ⟨_, rfl⟩
  · rename_i freed
    exact absurd freed kept

/-- The write event of a session between attempts. -/
theorem trying_goes (at' : s.In .requestConnecting) (tries : k.Tries s.conn)
    (watches : k.Watches s.conn) (table : s.stm.maxState = SocksV5State.error.num)
    (delivered : Deliverable .write fd s.conn) : ∃ t, handleEvent .write o fd s = .ok t := by
  obtain ⟨⟨ret, mid⟩, ran⟩ := connectingWrite_goes o fd tries
  obtain ⟨act, k', -, -, ⟨rfl, -⟩ | ⟨rfl, -, -, request⟩⟩ :=
    connectingWrite_tries tries watches delivered ran
  · exact handleEvent_goes .requestConnecting at' table rfl ran (.inl ⟨rfl, rfl⟩)
      (lives_on (by decide))
  · obtain ⟨left, closed⟩ := connectingClose_goes fd request
    exact handleEvent_goes .requestWrite at' table rfl ran (.inr ⟨by decide, left, closed, rfl⟩)
      (lives_on (by decide))

/-! ## REQUEST_WRITE -/

theorem copyComputeInterests_goes (d : CopySt) (registered : d.fd ≠ -1 → c.sel.Registered d.fd) :
    ∃ c', copyComputeInterests d c = .ok c' := by
  unfold copyComputeInterests
  split
  · rename_i isOpen
    simp only
    rw [if_pos (interestStatus_of_registered (registered isOpen))]
    exact ⟨_, rfl⟩
  · exact ⟨_, rfl⟩

theorem copyInit_goes (fd : Int) (client : c.sel.Registered c.clientFd)
    (origin : c.originFd ≠ -1 → c.sel.Registered c.originFd) : ∃ d, copyInit fd c = .ok d := by
  simp only [copyInit]
  obtain ⟨c', first⟩ := copyComputeInterests_goes
    (c := { c with
      client := .copy ⟨c.clientFd, .readBuffer, .writeBuffer, opReadWrite, .orig⟩
      orig := .copy ⟨c.originFd, .writeBuffer, .readBuffer, opReadWrite, .client⟩ })
    ⟨c.originFd, .writeBuffer, .readBuffer, opReadWrite, .client⟩ origin
  obtain ⟨sel, rfl, tuned, -⟩ := copyComputeInterests_ok first
  exact bind_goes first (copyComputeInterests_goes _ fun _ => (tuned.registered _).mpr client)

/-- The write event of a session whose replies are being sent. -/
theorem writing_goes (at' : s.In .requestWrite) (writes : k.Writes s.conn)
    (table : s.stm.maxState = SocksV5State.error.num) (delivered : Deliverable .write fd s.conn) :
    ∃ t, handleEvent .write o fd s = .ok t := by
  obtain rfl := writes_delivered writes delivered
  obtain ⟨d, request⟩ := writes.request
  obtain ⟨conn, orig, -⟩ := writes.status
  obtain ⟨⟨ret, mid⟩, ran⟩ : ∃ r, requestWrite o s.conn.clientFd s.conn = .ok r := by
    simp only [requestWrite, request_ok.mpr request, ok_bind]
    split
    · exact ⟨_, rfl⟩
    · split
      · exact ⟨_, rfl⟩
      · refine bind_goes (a := conn) ?_ ?_
        · exact conn_ok.mpr orig
        · split
          · exact ⟨_, rfl⟩
          · exact ⟨_, rfl⟩
  have fits := fun bytes => fits_sentOff writes.fits s.conn.clientFd bytes
  rcases requestWrite_ok ran with ⟨-, rfl, rfl⟩ |
      ⟨bytes, -, ⟨-, rfl, rfl⟩ | ⟨-, conn', -, ⟨-, rfl, rfl⟩ | ⟨-, rfl, eq⟩⟩⟩
  · have logged : k.Fits (s.conn.log (.send s.conn.clientFd none)) :=
      fits_same [_] writes.fits ⟨rfl, rfl, rfl, rfl, rfl, rfl, rfl, rfl⟩ rfl rfl rfl
        (by simp [Call.Quiet, Call.attempt]) rfl
    exact handleEvent_goes .error at' table rfl ran (.inr ⟨by decide, _, rfl, rfl⟩)
      fun _ => done_goes logged writes.paired
  · exact handleEvent_goes .requestWrite at' table rfl ran (.inl ⟨rfl, rfl⟩) (lives_on (by decide))
  · have registered : ∀ f, s.conn.sel.Registered f →
        (((s.conn.sentOff s.conn.clientFd bytes).setInterest s.conn.clientFd opRead).setInterest
          s.conn.originFd opRead).sel.Registered f := fun f at' =>
      ((setInterest_retuned _ _ _).registered f).mpr
        (((setInterest_retuned _ _ _).registered f).mpr at')
    obtain ⟨d', arrived⟩ := copyInit_goes s.conn.clientFd
      (registered _ writes.fits.footing.client.registered)
      fun isOpen => registered _ (origin_registered writes.fits writes.paired isOpen)
    exact handleEvent_goes .copy at' table rfl ran (.inr ⟨by decide, _, rfl, arrived⟩)
      (lives_on (by decide))
  · have settled : k.Fits mid := by
      have watched := fits_setInterest s.conn.clientFd (fits bytes) opNoop (client_live writes.fits)
      rw [eq]
      split
      · exact fits_setInterest s.conn.originFd watched opNoop (originFd_live writes.fits)
      · exact watched
    exact handleEvent_goes .done at' table rfl ran (.inr ⟨by decide, _, rfl, rfl⟩)
      fun _ => done_goes settled writes.paired

/-! ## The descriptor that is watched -/

theorem deliverable_write (item : c.Item fd) (interest : c.interestOf fd = opWrite) :
    Deliverable .write fd c := by
  refine ⟨item.registered, item.holds.2, ?_⟩
  change (c.interestOf fd).write = true
  rw [interest]
  rfl

/-- A descriptor of the session is watched for writing, and the session goes on once it
is ready. -/
theorem place_goes (place : k.Place s) (table : s.stm.maxState = SocksV5State.error.num)
    (waits : k.phase = .pending ∨ k.phase = .failing ∨ k.phase = .writing) :
    ∃ fd, Deliverable .write fd s.conn ∧ ∀ o, ∃ t, handleEvent .write o fd s = .ok t := by
  rcases waits with phase | phase | phase <;> simp only [Course.Place, phase] at place
  · obtain ⟨at', tries, watches⟩ := place
    have watched := watches
    simp only [Course.Watches, phase] at watched
    have delivered := deliverable_write (tries.fits.footing.origin watched.2.2.1) watched.2.1
    exact ⟨_, delivered, fun o => trying_goes at' tries watches table delivered⟩
  · obtain ⟨at', tries, watches⟩ := place
    have watched := watches
    simp only [Course.Watches, phase] at watched
    have delivered := deliverable_write tries.fits.footing.client watched.1
    exact ⟨_, delivered, fun o => trying_goes at' tries watches table delivered⟩
  · obtain ⟨at', writes⟩ := place
    have delivered := deliverable_write writes.fits.footing.client writes.client
    exact ⟨_, delivered, fun o => writing_goes at' writes table delivered⟩

end

end SocksProxy
