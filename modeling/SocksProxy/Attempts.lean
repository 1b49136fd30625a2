import SocksProxy.Tracking

/-!
# connecting.c follows the course

One lemma for each function of the stage: from a record that tracks a course, it
leaves one that tracks what the course's own operation gives.
-/

namespace SocksProxy

open Lib

section
variable {k : Course} {c d : Conn}

/-! ## Changes that the course does not see -/

/-- A call that makes no attempt and does not release the record. -/
def Call.Quiet (call : Call) : Prop := call.attempt = none ∧ call ≠ .released

theorem attempts_quiet {calls : List Call} (quiet : ∀ call ∈ calls, call.Quiet) :
    calls.filterMap Call.attempt = [] := by
  rw [List.filterMap_eq_nil_iff]
  exact fun call member => (quiet call member).1

theorem fits_retuned (fds : List Int) (more : List Call) (h : k.Fits c) (same : c.Same d)
    (tuned : c.sel.Retuned fds d.sel) (method : d.authMethod = 0x00 ∨ d.authMethod = 0x02)
    (calls : d.calls = c.calls ++ more) (quiet : ∀ call ∈ more, call.Quiet)
    (left : d.originResolutionCurrent = c.originResolutionCurrent)
    (stale : k.registered = true → k.isOpen = false → d.interestOf k.socket = opNoop) : k.Fits d where
  socks := same.isSocks.trans h.socks
  footing := footing_retuned fds h.footing same tuned method
  originFd := same.originFd.trans h.originFd
  socket := h.socket
  references := same.references.trans h.references
  released := by
    rw [calls, List.mem_append, not_or]
    exact ⟨h.released, fun member => (quiet _ member).2 rfl⟩
  left := left.trans h.left
  tried := by rw [calls, List.filterMap_append, attempts_quiet quiet, List.append_nil, h.tried]
  established := fun on => by
    rw [calls]
    exact ⟨List.mem_append_left _ (h.established on).1, List.mem_append_left _ (h.established on).2⟩
  stale := stale

/-- A change of the record that the selector does not see. -/
theorem fits_same (more : List Call) (h : k.Fits c) (same : c.Same d) (sel : d.sel = c.sel)
    (method : d.authMethod = c.authMethod) (calls : d.calls = c.calls ++ more)
    (quiet : ∀ call ∈ more, call.Quiet)
    (left : d.originResolutionCurrent = c.originResolutionCurrent) : k.Fits d := by
  refine fits_retuned [] more h same (by rw [sel]; exact .refl _ _)
    (by rw [method]; exact h.footing.method) calls quiet left fun on closed => ?_
  unfold Conn.interestOf
  rw [sel]
  exact h.stale on closed

/-- Setting the interest of the client, or of a socket that is not stale. -/
theorem fits_setInterest (fd : Int) (h : k.Fits c) (i : FdInterest)
    (live : k.registered = true → k.isOpen = false → fd ≠ k.socket) :
    k.Fits (c.setInterest fd i) := by
  refine fits_retuned [fd] [] h (setInterest_same c fd i) (setInterest_retuned _ _ _)
    h.footing.method (by simp [Conn.setInterest]) (by simp) rfl fun on closed => ?_
  rw [interestOf_setInterest_ne (live on closed).symm]
  exact h.stale on closed

theorem client_ne_socket (h : k.Fits c) : c.clientFd ≠ k.socket := h.footing.apart.symm

/-! ## Replies of failure -/

theorem errorHandlerToClient_record (status : SocksReplyStatus) (c : Conn) :
    (errorHandlerToClient status c).2.toSocks5 = { c.toSocks5 with
      writeBuffer := (requestMarshall status c.writeBuffer).getD c.writeBuffer } := by
  simp only [errorHandlerToClient]
  split <;> rfl

theorem errorHandlerToClient_fits (h : k.Fits c) (status : SocksReplyStatus) :
    k.Fits (errorHandlerToClient status c).2 ∧
      (errorHandlerToClient status c).2.interestOf c.clientFd = opWrite ∧
      (k.registered = true → (errorHandlerToClient status c).2.interestOf k.socket = opNoop) := by
  have marshalled : k.Fits (c.marshalled status) :=
    fits_same [] h ⟨rfl, rfl, rfl, rfl, rfl, rfl, rfl, rfl⟩ rfl rfl
      (List.append_nil _).symm (by simp) rfl
  have watched := fits_setInterest c.clientFd marshalled opWrite
    fun _ _ => client_ne_socket h
  have client : ((c.marshalled status).setInterest c.clientFd opWrite).interestOf c.clientFd =
      opWrite := interestOf_setInterest marshalled.footing.client.registered
  simp only [errorHandlerToClient]
  split
  · rename_i isOpen
    have here : c.originFd = k.socket := h.footing.originFd.resolve_right isOpen
    have notStale : k.registered = true → k.isOpen = false → c.originFd ≠ k.socket := by
      intro _ closed
      exact absurd (h.originFd.trans (by simp [Course.originFd, closed])) isOpen
    refine ⟨fits_setInterest c.originFd watched opNoop notStale, ?_, fun on => ?_⟩
    · rw [interestOf_setInterest_ne]
      · exact client
      · exact fun eq => client_ne_socket h (eq.trans here)
    · have item := watched.footing.origin on
      rw [← here] at item ⊢
      exact interestOf_setInterest item.registered
  · rename_i closed
    refine ⟨watched, client, fun on => ?_⟩
    have off : k.isOpen = false := by
      by_contra isOpen
      rw [Bool.not_eq_false] at isOpen
      have socket := h.socket isOpen
      have eq := h.originFd
      simp only [Course.originFd, isOpen, if_true] at eq
      have valid : c.originFd ≠ -1 := by omega
      exact closed valid
    exact watched.stale on off

/-- The course's own bookkeeping is not the record's. -/
theorem fits_course {k' : Course} (h : k.Fits c) (socket : k'.socket = k.socket)
    (isOpen : k'.isOpen = k.isOpen) (registered : k'.registered = k.registered)
    (leaked : k'.leaked = k.leaked) (left : k'.left = k.left) (tried : k'.tried = k.tried)
    (established : k'.established = k.established) : k'.Fits c := by
  have originFd : k'.originFd = k.originFd := by simp only [Course.originFd, socket, isOpen]
  refine ⟨h.socks, ?_, h.originFd.trans originFd.symm, ?_, ?_, h.released, ?_, ?_, ?_, ?_⟩
  · rw [socket, registered]
    exact h.footing
  · rw [socket, isOpen]
    exact h.socket
  · rw [registered, leaked]
    exact h.references
  · rw [left]
    exact h.left
  · rw [tried]
    exact h.tried
  · rw [established, socket]
    exact h.established
  · rw [registered, isOpen, socket]
    exact h.stale

theorem setConnStatus_ok {status : SocksReplyStatus} {conn : Connecting} (at' : c.orig = .conn conn) :
    c.setConnStatus status = .ok { c with orig := .conn { conn with status := status } } := by
  simp [Conn.setConnStatus, Socks5.conn, at']

/-- A failure is stored, queued for the client, and the client is watched to take it. -/
theorem failed_tries {status : SocksReplyStatus} (h : k.Tries c) (bad : status ≠ .succeeded)
    (eq : d = (errorHandlerToClient status { c with orig := .conn ⟨c.clientFd, -1, status⟩ }).2) :
    (k.fail status).Tries d ∧ (k.fail status).Watches d := by
  subst eq
  have fits : k.Fits { c with orig := .conn ⟨c.clientFd, -1, status⟩ } :=
    fits_same [] h.fits ⟨rfl, rfl, rfl, rfl, rfl, rfl, rfl, rfl⟩ rfl rfl
      (List.append_nil _).symm (by simp) rfl
  obtain ⟨fits', client, socket⟩ := errorHandlerToClient_fits fits status
  have record := errorHandlerToClient_record status { c with orig := .conn ⟨c.clientFd, -1, status⟩ }
  refine ⟨⟨fits_course fits' rfl rfl rfl rfl rfl rfl rfl, ⟨?_, ?_⟩, ?_, ?_⟩, ?_, bad, socket⟩
  · rw [record]
    exact h.waits.sent
  · rw [record]
    exact queues_marshalled h.waits.queue status
  · rw [record]
    exact h.request
  · rw [record]
    rfl
  · rw [record]
    exact client

/-- The same when the failure is already stored. -/
theorem failed_stored (h : k.Tries c) (bad : k.status ≠ .succeeded)
    (eq : d = (errorHandlerToClient k.status c).2) :
    (k.fail k.status).Tries d ∧ (k.fail k.status).Watches d := by
  have same : c = { c with orig := .conn ⟨c.clientFd, -1, k.status⟩ } := by
    rw [← h.conn]
  rw [same] at eq
  exact failed_tries h bad eq

theorem connectionFailed_tries {status r : SocksReplyStatus} (h : k.Tries c) (bad : status ≠ .succeeded)
    (ran : connectionFailed status c = .ok (r, d)) :
    r = status ∧ (k.fail status).Tries d ∧ (k.fail status).Watches d := by
  simp only [connectionFailed, setConnStatus_ok h.conn, ok_bind, Except.ok.injEq, Prod.mk.injEq] at ran
  exact ⟨ran.1.symm, failed_tries h bad ran.2.symm⟩

/-! ## connection -/

/-- The selector took the socket, and a reference was counted for it. -/
theorem taken_fits {o : Outcome} {i : FdInterest} (h : k.Fits c) (taken : c.Registrable)
    (eq : d = { (c.registerOrigin o i).2 with references := c.references + 1 }) :
    ({ k with registered := true } : Course).Fits d ∧ d.interestOf k.socket = i ∧
      d.interestOf c.clientFd = c.interestOf c.clientFd ∧ k.isOpen = true := by
  subst eq
  obtain ⟨footing, socket, client, record⟩ := registerOrigin_taken (i := i) h.footing h.socks o taken
  obtain ⟨here, off⟩ := registrable_socket h.footing taken
  have isOpen : k.isOpen = true := by
    by_contra closed
    have eq := h.originFd
    simp only [Course.originFd, closed, if_false] at eq
    exact valid_ne taken.1 eq
  have calls : (c.registerOrigin o i).2.calls = c.calls ++ [.register c.originFd .success] := by
    rw [record]
  refine ⟨⟨h.socks, ⟨footing.span, footing.client, footing.origin, footing.held, footing.apart,
    footing.originFd, footing.clientOpen, footing.originOpen, footing.negative, footing.method,
    footing.errorState, footing.doneState⟩, h.originFd, h.socket,
    ?_, ?_, h.left, ?_, fun on => ?_, fun _ closed => ?_⟩, socket, client, isOpen⟩
  · have := h.references
    rw [off] at this
    simp only [this, Bool.toNat_false, Bool.toNat_true]
    omega
  · simp only [calls, List.mem_append, List.mem_singleton, reduceCtorEq, or_false]
    exact h.released
  · simp only [calls, List.filterMap_append, h.tried]
    simp [Call.attempt]
  · simp only [calls]
    have before := h.established on
    exact ⟨List.mem_append_left _ before.1, List.mem_append_left _ before.2⟩
  · rw [isOpen] at closed
    cases closed

theorem refused_tries {o : Outcome} {i : FdInterest} (h : k.Tries c) (refused : ¬ c.Registrable) :
    k.Tries (c.registerOrigin o i).2 := by
  obtain ⟨sel, eq, tuned⟩ := registerOrigin_refused (i := i) h.fits.footing o refused
  rw [eq]
  have interest : sel.fds k.socket = c.sel.fds k.socket := tuned.outside _ (by simp)
  refine ⟨fits_retuned [] [_] h.fits ⟨rfl, rfl, rfl, rfl, rfl, rfl, rfl, rfl⟩ tuned h.fits.footing.method
    rfl ?_ rfl fun on closed => ?_, ⟨?_, h.waits.queue⟩, h.request, h.conn⟩
  · simp [Call.Quiet, Call.attempt]
  · have before := h.fits.stale on closed
    unfold Conn.interestOf at before ⊢
    rw [← before, ← interest]
    rfl
  · change sentTo c.clientFd (c.calls ++ [_]) = k.base
    rw [sentTo_append, h.waits.sent]
    simp [sentTo, Call.sent]

/-- Closing the socket: its item, if it has one, is left behind. -/
theorem closed_tries (h : k.Tries c)
    (idle : k.registered = true → c.interestOf k.socket = opNoop) :
    ({ k with isOpen := false } : Course).Tries c.closeOrigin := by
  refine ⟨⟨h.fits.socks, footing_closeOrigin h.fits.footing, rfl, (fun on => nomatch on),
    h.fits.references, ?_, h.fits.left, ?_, fun on => ?_, fun on _ => idle on⟩, ⟨?_, h.waits.queue⟩,
    h.request, h.conn⟩
  · change Call.released ∉ c.calls ++ [_]
    simp only [List.mem_append, List.mem_singleton, reduceCtorEq, or_false]
    exact h.fits.released
  · change (c.calls ++ [_]).filterMap _ = _
    rw [List.filterMap_append, h.fits.tried]
    simp [Call.attempt]
  · have before := h.fits.established on
    exact ⟨List.mem_append_left _ before.1, List.mem_append_left _ before.2⟩
  · change sentTo c.clientFd (c.calls ++ [_]) = k.base
    rw [sentTo_append, h.waits.sent]
    simp [sentTo, Call.sent]

/-- The record once `connect` was called and counted. -/
def Conn.attempted (c : Conn) (result : Option Errno) : Conn :=
  { c with metrics := { c.metrics with
      historicConnectionsAttempts := c.metrics.historicConnectionsAttempts + 1 } }.log
    (.connect c.originFd c.originAddr c.originAddrLen result)

theorem attempted_tries (h : k.Tries c) (result : Option Errno) :
    ({ k with tried := k.tried ++ [Attempt.mk k.originFd c.originAddr result] } : Course).Tries
      (c.attempted result) := by
  refine ⟨⟨h.fits.socks, ?_, h.fits.originFd, h.fits.socket, h.fits.references, ?_, h.fits.left, ?_,
    fun on => ?_, h.fits.stale⟩, ⟨?_, h.waits.queue⟩, h.request, h.conn⟩
  · exact footing_same h.fits.footing ⟨rfl, rfl, rfl, rfl, rfl, rfl, rfl, rfl⟩ rfl rfl
  · change Call.released ∉ c.calls ++ [_]
    simp only [List.mem_append, List.mem_singleton, reduceCtorEq, or_false]
    exact h.fits.released
  · change (c.calls ++ [_]).filterMap _ = _
    rw [List.filterMap_append, h.fits.tried, ← h.fits.originFd]
    rfl
  · have before := h.fits.established on
    exact ⟨List.mem_append_left _ before.1, List.mem_append_left _ before.2⟩
  · change sentTo c.clientFd (c.calls ++ [_]) = k.base
    rw [sentTo_append, h.waits.sent]
    simp [sentTo, Call.sent]

/-- What `connection` returns for what it leaves. -/
def Course.returned (k : Course) : SocksReplyStatus :=
  if k.phase = .failing then k.status else .succeeded

theorem attempt_accepted_isOpen {o : Outcome} (h : k.Fits c)
    (accepted : connectResult o c = some .einprogress ∨ connectResult o c = none) :
    k.isOpen = true := by
  by_contra closed
  have originFd := h.originFd
  simp only [Course.originFd, closed, if_false] at originFd
  unfold connectResult at accepted
  rw [originFd, h.footing.negative] at accepted
  simp at accepted

/-- The event's descriptor is the client's when the selector can take the socket. -/
theorem event_client {fd : Int} (h : k.Fits c) (item : c.Item fd) (taken : c.Registrable) :
    fd = c.clientFd := by
  rcases h.footing.held fd item.holds with eq | ⟨on, -⟩
  · exact eq
  · rw [(registrable_socket h.footing taken).2] at on
    cases on

theorem setInterest_tries (fd : Int) (h : k.Tries c) (i : FdInterest) (isOpen : k.isOpen = true) :
    k.Tries (c.setInterest fd i) :=
  ⟨fits_setInterest fd h.fits i (fun _ closed => absurd (isOpen.symm.trans closed) (by decide)),
    ⟨h.waits.sent, h.waits.queue⟩, h.request, h.conn⟩

theorem setInterest_registrable {fd : Int} {i : FdInterest} :
    (c.setInterest fd i).Registrable ↔ c.Registrable := by
  have used : ((c.setInterest fd i).sel.fds c.originFd).used = (c.sel.fds c.originFd).used :=
    (setInterest_retuned c.sel fd i).used c.originFd
  unfold Conn.Registrable FdSelector.Takes
  rw [show (c.setInterest fd i).originFd = c.originFd from rfl, used]

theorem taken_tries {o : Outcome} {i : FdInterest} (h : k.Tries c) (taken : c.Registrable)
    (phase : Phase)
    (eq : d = { (c.registerOrigin o i).2 with references := c.references + 1 }) :
    ({ k with phase := phase, registered := true } : Course).Tries d ∧ d.interestOf k.socket = i ∧
      d.interestOf d.clientFd = c.interestOf c.clientFd ∧ k.isOpen = true := by
  obtain ⟨fits, socket, client, isOpen⟩ := taken_fits h.fits taken eq
  have record : d.toSocks5 = { c.toSocks5 with
      calls := d.calls, references := d.references } := by
    rw [eq]
    rfl
  refine ⟨⟨fits_course fits rfl rfl rfl rfl rfl rfl rfl, ⟨?_, ?_⟩, ?_, ?_⟩, socket, ?_, isOpen⟩
  · rw [eq]
    change sentTo c.clientFd (c.calls ++ [_]) = k.base
    rw [sentTo_append, h.waits.sent]
    simp [sentTo, Call.sent]
  · rw [record]
    exact h.waits.queue
  · rw [record]
    exact h.request
  · rw [record]
    exact h.conn
  · rw [record]
    exact client

/-- The part of `connection` that follows an attempt in progress. -/
theorem inProgress_tries {o : Outcome} {fd : Int} {st : SocksReplyStatus} (h : k.Tries c)
    (item : c.Item fd) (isOpen : k.isOpen = true) (clean : k.status = .succeeded → k.said = [])
    (ran : (let r := (c.setInterest fd opNoop).registerOrigin o opWrite
      if r.1 ≠ .success then do
        let f ← connectionFailed .generalSocksServerFailure r.2
        .ok (f.1, { f.2.closeFd f.2.originFd with originFd := -1 })
      else .ok (.succeeded, { r.2 with references := r.2.references + 1 })) = .ok (st, d)) :
    (c.Registrable → st = .succeeded ∧
      ({ k with phase := .pending, registered := true } : Course).Tries d ∧
      ({ k with phase := .pending, registered := true } : Course).Watches d) ∧
    (¬ c.Registrable → st = .generalSocksServerFailure ∧
      ({ k.fail .generalSocksServerFailure with isOpen := false } : Course).Tries d ∧
      ({ k.fail .generalSocksServerFailure with isOpen := false } : Course).Watches d) := by
  have tries := setInterest_tries fd h opNoop isOpen
  have status := registerOrigin_status (i := opWrite) tries.fits.footing o
  rw [setInterest_registrable] at status
  simp only at ran
  constructor
  · intro taken
    rw [if_neg (not_not_intro (status.mpr taken)), Except.ok.injEq, Prod.mk.injEq] at ran
    obtain ⟨rfl, eq⟩ := ran
    obtain ⟨after, socket, client, -⟩ :=
      taken_tries tries (setInterest_registrable.mpr taken) .pending eq.symm
    have here := event_client h.fits item taken
    refine ⟨rfl, after, client.trans ?_, socket, rfl, isOpen, clean⟩
    change (c.setInterest fd opNoop).interestOf c.clientFd = opNoop
    rw [← here]
    exact interestOf_setInterest item.registered
  · intro refused
    rw [if_pos (mt status.mp refused)] at ran
    obtain ⟨f, failed, ran⟩ := bind_eq_ok.mp ran
    rw [Except.ok.injEq, Prod.mk.injEq] at ran
    have refused' := refused_tries (o := o) (i := opWrite) tries (mt setInterest_registrable.mp refused)
    obtain ⟨st_eq, after, watches⟩ := connectionFailed_tries refused' (by decide) failed
    rw [← ran.2]
    exact ⟨ran.1.symm.trans st_eq, closed_tries after watches.2.2, watches⟩

/-- `references += 1`. -/
def Conn.counted (c : Conn) : Conn := { c with references := c.references + 1 }

/-- A reference was counted before the selector refused the socket. -/
theorem leaked_tries (h : k.Tries c) :
    ({ k with leaked := k.leaked + 1 } : Course).Tries c.counted := by
  have references : c.references + 1 = 1 + k.registered.toNat + (k.leaked + 1) := by
    rw [h.fits.references]
    omega
  have f := h.fits.footing
  exact ⟨⟨h.fits.socks, ⟨f.span, f.client, f.origin, f.held, f.apart, f.originFd, f.clientOpen,
    f.originOpen, f.negative, f.method, f.errorState, f.doneState⟩, h.fits.originFd,
    h.fits.socket, references, h.fits.released, h.fits.left, h.fits.tried, h.fits.established,
    h.fits.stale⟩, ⟨h.waits.sent, h.waits.queue⟩, h.request, h.conn⟩

/-- The part of `connection` that follows an attempt accepted at once. -/
theorem immediate_tries {o : Outcome} {fd : Int} {st : SocksReplyStatus} (h : k.Tries c)
    (item : c.Item fd) (isOpen : k.isOpen = true)
    (ran : (let r := (c.counted.setInterest fd opRead).registerOrigin o opRead
      if r.1 ≠ .success then connectionFailed .generalSocksServerFailure r.2
      else .ok (.succeeded, r.2)) = .ok (st, d)) :
    (c.Registrable → st = .succeeded ∧
      ({ k with phase := .immediate, registered := true } : Course).Tries d ∧
      ({ k with phase := .immediate, registered := true } : Course).Watches d) ∧
    (¬ c.Registrable → st = .generalSocksServerFailure ∧
      ({ k.fail .generalSocksServerFailure with leaked := k.leaked + 1 } : Course).Tries d ∧
      ({ k.fail .generalSocksServerFailure with leaked := k.leaked + 1 } : Course).Watches d) := by
  have tries := setInterest_tries fd h opRead isOpen
  have leaked := setInterest_tries fd (leaked_tries h) opRead isOpen
  have status := registerOrigin_status (i := opRead) leaked.fits.footing o
  rw [setInterest_registrable] at status
  simp only at ran
  constructor
  · intro taken
    rw [if_neg (not_not_intro (status.mpr taken)), Except.ok.injEq, Prod.mk.injEq] at ran
    obtain ⟨rfl, eq⟩ := ran
    obtain ⟨after, socket, client, -⟩ :=
      taken_tries (o := o) (i := opRead) tries (setInterest_registrable.mpr taken) .immediate eq.symm
    have here := event_client h.fits item taken
    refine ⟨rfl, after, client.trans ?_, socket, rfl, isOpen⟩
    change (c.setInterest fd opRead).interestOf c.clientFd = opRead
    rw [← here]
    exact interestOf_setInterest item.registered
  · intro refused
    rw [if_pos (mt status.mp refused)] at ran
    have refused' := refused_tries (o := o) (i := opRead) leaked (mt setInterest_registrable.mp refused)
    exact connectionFailed_tries refused' (by decide) ran

theorem request_tries (h : k.Tries c) (req : RequestSt) (kept : req.parser ≠ .freed) :
    k.Tries { c with client := .request req } :=
  ⟨fits_same [] h.fits ⟨rfl, rfl, rfl, rfl, rfl, rfl, rfl, rfl⟩ rfl rfl
    (List.append_nil _).symm (by simp) rfl, ⟨h.waits.sent, h.waits.queue⟩, ⟨req, rfl, kept⟩, h.conn⟩

/-- `connection` makes the course's attempt. -/
theorem connection_tries {o : Outcome} {fd : Int} {st : SocksReplyStatus} (h : k.Tries c)
    (item : c.Item fd) (clean : k.status = .succeeded → k.said = []) (ran : connection o fd c = .ok (st, d)) :
    (k.attempt c.originAddr (connectResult o c) (decide c.Registrable)).Tries d ∧
      (k.attempt c.originAddr (connectResult o c) (decide c.Registrable)).Watches d ∧
      st = (k.attempt c.originAddr (connectResult o c) (decide c.Registrable)).returned := by
  have tries := attempted_tries h (connectResult o c)
  have status : ∀ (i : FdInterest), (c.attempted (connectResult o c)).interestStatus fd i = .success :=
    fun i => interestStatus_of_registered item.registered
  have accepted := fun x => attempt_accepted_isOpen (o := o) h.fits x
  have same : ∀ m, connectResult o { c with metrics := m } = connectResult o c := fun _ => rfl
  have registrable : (c.attempted (connectResult o c)).Registrable ↔ c.Registrable := Iff.rfl
  simp only [connection, same] at ran
  generalize connectResult o c = result at tries status accepted ran registrable ⊢
  cases result with
  | none =>
    have ran := (if_neg (not_not_intro (status opRead))).symm.trans ran
    obtain ⟨taken, refused⟩ := immediate_tries tries item (accepted (Or.inr rfl)) ran
    by_cases reg : c.Registrable
    · simp only [Course.attempt, reg, decide_true, if_true]
      exact ⟨(taken reg).2.1, (taken reg).2.2, (taken reg).1⟩
    · simp only [Course.attempt, reg, decide_false, Bool.false_eq_true, if_false]
      exact ⟨(refused reg).2.1, (refused reg).2.2, (refused reg).1⟩
  | some e =>
    cases e with
    | einprogress =>
      have ran := (if_neg (not_not_intro (status opNoop))).symm.trans ran
      obtain ⟨taken, refused⟩ := inProgress_tries tries item (accepted (Or.inl rfl)) clean ran
      by_cases reg : c.Registrable
      · simp only [Course.attempt, reg, decide_true, if_true]
        exact ⟨(taken reg).2.1, (taken reg).2.2, (taken reg).1⟩
      · simp only [Course.attempt, reg, decide_false, Bool.false_eq_true, if_false]
        exact ⟨(refused reg).2.1, (refused reg).2.2, (refused reg).1⟩
    | _ =>
      obtain ⟨req, member, failed⟩ := bind_eq_ok.mp ran
      obtain ⟨req', member', kept⟩ := h.request
      obtain rfl : req = req' := ClientSt.request.inj ((request_ok.mp member).symm.trans member')
      have stored := fun status => request_tries tries { req with status := status } kept
      obtain ⟨st_eq, after, watches⟩ :=
        connectionFailed_tries (stored _) (errnoToSocks_ne _) failed
      exact ⟨after, watches, st_eq⟩

/-! ## connecting_init -/

theorem attempt_status (status : k.status = .succeeded) (addr : List UInt8) (result : Option Errno)
    (taken : Bool) : (k.attempt addr result taken).status = (k.attempt addr result taken).returned := by
  unfold Course.attempt Course.returned
  split
  · split
    · simp [status]
    · rfl
  · rfl
  · split
    · simp [status]
    · rfl

/-- The record of a course that has no socket yet. -/
structure Course.Ready (k : Course) (c : Conn) : Prop where
  fits : k.Fits c
  waits : k.Waits c
  request : c.Requested
  status : k.status = .succeeded
  closed : k.isOpen = false
  unregistered : k.registered = false
  nothing : k.established = false
  silent : k.said = []

theorem ready_tries (h : k.Ready c) : k.Tries { c with orig := .conn ⟨c.clientFd, -1, .succeeded⟩ } :=
  ⟨fits_same [] h.fits ⟨rfl, rfl, rfl, rfl, rfl, rfl, rfl, rfl⟩ rfl rfl
    (List.append_nil _).symm (by simp) rfl, ⟨h.waits.sent, h.waits.queue⟩, h.request,
    by rw [h.status]⟩

theorem noSocket_tries (h : k.Ready c) :
    k.Tries ({ c with orig := .conn ⟨c.clientFd, -1, .succeeded⟩, originFd := -1 }.log (.socket (-1))) := by
  have tries := ready_tries h
  have originFd : c.originFd = -1 := by
    rw [h.fits.originFd, Course.originFd, h.closed]
    rfl
  refine ⟨fits_same [_] tries.fits ⟨rfl, rfl, originFd.symm, rfl, rfl, rfl, rfl, rfl⟩ rfl rfl rfl ?_ rfl,
    ⟨?_, h.waits.queue⟩, h.request, tries.conn⟩
  · simp [Call.Quiet, Call.attempt]
  · change sentTo c.clientFd (c.calls ++ [_]) = k.base
    rw [sentTo_append, h.waits.sent]
    simp [sentTo, Call.sent]

/-- The record with the socket that `socket` gave. -/
def Conn.withSocket (c : Conn) (n : Nat) : Conn :=
  { c with
    orig := .conn ⟨c.clientFd, -1, .succeeded⟩, originFd := n
    isOpen := Function.update c.isOpen n true }.log (.socket n)

theorem opened_tries {n : Nat} (h : k.Ready c) (fresh : c.isOpen n = false) :
    (k.opened n).Tries (c.withSocket n) := by
  have footing : (c.withSocket n).Footing n false := by
    have before := h.fits.footing
    rw [h.unregistered] at before
    exact footing_opened before fresh rfl rfl
  have references := h.fits.references
  refine ⟨⟨h.fits.socks, ?_, rfl, fun _ => Int.natCast_nonneg n, references, ?_, h.fits.left, ?_,
    fun on => absurd (h.nothing.symm.trans on) (by decide), fun _ closed => nomatch closed⟩,
    ⟨?_, h.waits.queue⟩, h.request, ?_⟩
  · change (c.withSocket n).Footing n k.registered
    rw [h.unregistered]
    exact footing
  · change Call.released ∉ c.calls ++ [_]
    simp only [List.mem_append, List.mem_singleton, reduceCtorEq, or_false]
    exact h.fits.released
  · change (c.calls ++ [_]).filterMap _ = _
    rw [List.filterMap_append, h.fits.tried]
    simp [Call.attempt, Course.opened]
  · change sentTo c.clientFd (c.calls ++ [_]) = k.base
    rw [sentTo_append, h.waits.sent]
    simp [sentTo, Call.sent]
  · change OrigSt.conn ⟨c.clientFd, -1, .succeeded⟩ = .conn ⟨c.clientFd, -1, k.status⟩
    rw [h.status]

theorem withSocket_registrable {n : Nat} : (c.withSocket n).Registrable ↔ c.sel.Takes n := Iff.rfl

theorem withSocket_connect (o : Outcome) (n : Nat) :
    connectResult o (c.withSocket n) = o.connect := by
  simp [connectResult, Conn.withSocket, Conn.log]

/-- `connecting_init` asks for a socket and makes the first attempt. -/
theorem connectingInit_tries {o : Outcome} {fd : Int} (h : k.Ready c) (item : c.Item fd)
    (fresh : ∀ n : Nat, o.socket = some n → c.isOpen n = false) (ran : connectingInit o fd c = .ok d) :
    ∃ k' : Course, k'.Tries d ∧ k'.Watches d ∧
      (o.socket = none ∧ k' = k.fail .generalSocksServerFailure ∨ ∃ n, o.socket = some n ∧
        (o.setNio = false ∧ k' = (k.opened n).fail .generalSocksServerFailure ∨
          o.setNio = true ∧
            k' = (k.opened n).attempt c.originAddr o.connect (decide (c.sel.Takes n)))) := by
  simp only [connectingInit] at ran
  split at ran
  · rename_i none'
    obtain ⟨f, failed, ran⟩ := bind_eq_ok.mp ran
    obtain ⟨-, after, watches⟩ := connectionFailed_tries (noSocket_tries h) (by decide) failed
    rw [← Except.ok.inj ran]
    exact ⟨_, after, watches, Or.inl ⟨none', rfl⟩⟩
  · rename_i n opened
    have tries := opened_tries h (fresh n opened)
    split at ran
    · rename_i nio
      obtain ⟨r, ran', ran⟩ := bind_eq_ok.mp ran
      obtain ⟨after, watches, st⟩ := connection_tries tries item (fun _ => h.silent) ran'
      rw [withSocket_connect] at after watches st
      simp only [withSocket_registrable] at after watches st
      -- the status is stored once more, as it was left
      have conn := after.conn
      rw [attempt_status (k := k.opened n) h.status] at conn
      rw [setConnStatus_ok conn, st, Except.ok.injEq] at ran
      have same : d = r.2 := by
        rw [← ran, ← conn]
      rw [same]
      exact ⟨_, after, watches, Or.inr ⟨n, opened, Or.inr ⟨nio, rfl⟩⟩⟩
    · rename_i blocking
      obtain ⟨f, failed, ran⟩ := bind_eq_ok.mp ran
      obtain ⟨-, after, watches⟩ := connectionFailed_tries tries (by decide) failed
      rw [← Except.ok.inj ran]
      exact ⟨_, after, watches, Or.inr ⟨n, opened, Or.inl ⟨by simpa using blocking, rfl⟩⟩⟩

/-! ## connecting_write -/

theorem failed_writes {status : SocksReplyStatus} (h : (k.fail status).Tries c)
    (watches : (k.fail status).Watches c) (paired : k.Paired) :
    (k.answer status).Writes c ∧ c.Requested := by
  refine ⟨⟨fits_course h.fits rfl rfl rfl rfl rfl rfl rfl, paired, watches.1, watches.2.2,
    ⟨_, h.conn, rfl⟩, h.request.imp fun _ there => there.1, ?_, (h.waits.sent ▸ List.prefix_rfl)⟩,
    h.request⟩
  rw [h.waits.sent, h.waits.queue.unread]
  rfl

theorem tries_log (call : Call) (h : k.Tries c) (quiet : call.Quiet)
    (silent : call.sent c.clientFd = []) : k.Tries (c.log call) := by
  refine ⟨fits_same [call] h.fits ⟨rfl, rfl, rfl, rfl, rfl, rfl, rfl, rfl⟩ rfl rfl rfl (by simpa using quiet)
    rfl, ⟨?_, h.waits.queue⟩, h.request, h.conn⟩
  change sentTo c.clientFd (c.calls ++ [_]) = k.base
  rw [sentTo_append, h.waits.sent]
  simp [sentTo, silent]

theorem accessLog_tries (h : k.Tries c) (status : SocksReplyStatus) : k.Tries (c.accessLog status) :=
  tries_log _ h ⟨rfl, by simp⟩ rfl

theorem freeResolution_tries (h : k.Tries c) (req : RequestSt) : k.Tries (c.freeResolution req) := by
  unfold Conn.freeResolution
  split
  · exact tries_log .freeaddrinfo h ⟨rfl, by simp⟩ rfl
  · exact h

/-- The record when the list has moved on. -/
def Conn.movedOn (c : Conn) (left : List AddrInfo) (addr : List UInt8) : Conn :=
  { c with originResolutionCurrent := left, originAddr := addr }

theorem setOriginAddr_eq (next : AddrInfo) (rest : List AddrInfo) (c : Conn) :
    ∃ addr, setOriginAddr next { c with originResolutionCurrent := next :: rest } =
        c.movedOn (next :: rest) addr ∧ Heads (next :: rest) addr := by
  unfold setOriginAddr
  split
  · refine ⟨next.addr, rfl, fun a rest' list _ => ?_⟩
    obtain ⟨rfl, -⟩ := List.cons.inj list
    rfl
  · rename_i unknown
    refine ⟨c.originAddr, rfl, fun a rest' list known => ?_⟩
    obtain ⟨rfl, -⟩ := List.cons.inj list
    exact absurd known unknown

theorem movedOn_tries (h : k.Tries c) (left : List AddrInfo) (addr : List UInt8) :
    ({ k with left := left } : Course).Tries (c.movedOn left addr) := by
  have f := h.fits
  exact ⟨⟨f.socks, footing_same f.footing ⟨rfl, rfl, rfl, rfl, rfl, rfl, rfl, rfl⟩ rfl rfl,
    f.originFd, f.socket, f.references, f.released, rfl, f.tried, f.established, f.stale⟩,
    ⟨h.waits.sent, h.waits.queue⟩, h.request, h.conn⟩

theorem nextAddress_tries {o : Outcome} {fd : Int} {ret : Nat} {next : AddrInfo}
    {rest : List AddrInfo} (h : k.Tries c) (item : c.Item fd) (bad : k.status ≠ .succeeded)
    (ran : nextAddress o fd next rest c = .ok (ret, d)) :
    ret = SocksV5State.requestConnecting.num ∧ ∃ addr, Heads (next :: rest) addr ∧
      (({ k with left := next :: rest } : Course).attempt addr (connectResult o c)
        (decide c.Registrable)).Tries d ∧
      (({ k with left := next :: rest } : Course).attempt addr (connectResult o c)
        (decide c.Registrable)).Watches d := by
  simp only [nextAddress] at ran
  obtain ⟨addr, moved, heads⟩ := setOriginAddr_eq next rest c
  rw [moved] at ran
  obtain ⟨r, ran', ran⟩ := bind_eq_ok.mp ran
  rw [Except.ok.injEq, Prod.mk.injEq] at ran
  obtain ⟨after, watches, -⟩ :=
    connection_tries (movedOn_tries h (next :: rest) addr) item (fun good => absurd good bad) ran'
  rw [← ran.2]
  exact ⟨ran.1.symm, addr, heads, after, watches⟩

/-- The record without an item for its socket. -/
theorem tries_bare {references : Nat} (h : k.Tries c) (footing : d.Footing k.socket false)
    (record : d.toSocks5 = { c.toSocks5 with references := references })
    (counted : references = 1 + k.leaked) : ({ k with registered := false } : Course).Tries d := by
  refine ⟨⟨?_, footing, ?_, h.fits.socket, ?_, ?_, ?_, ?_, fun est => ?_, fun off => nomatch off⟩,
    ⟨?_, ?_⟩, ?_, ?_⟩ <;> rw [record]
  · exact h.fits.socks
  · exact h.fits.originFd
  · exact counted
  · exact h.fits.released
  · exact h.fits.left
  · exact h.fits.tried
  · exact h.fits.established est
  · exact h.waits.sent
  · exact h.waits.queue
  · exact h.request
  · exact h.conn

/-- `selector_unregister_fd` of the origin, whatever it finds. -/
theorem unregistered_tries (h : k.Tries c) :
    ({ k with registered := k.registered && !k.isOpen } : Course).Tries (c.unregister c.originFd).2 := by
  have footing := h.fits.footing
  have references := h.fits.references
  by_cases isOpen : k.isOpen = true
  · have here : c.originFd ≠ -1 := by
      have socket := h.fits.socket isOpen
      rw [h.fits.originFd, Course.originFd, if_pos isOpen]
      omega
    have gone : (k.registered && !k.isOpen) = false := by rw [isOpen, Bool.not_true, Bool.and_false]
    rw [gone]
    cases on : k.registered with
    | true =>
      rw [on] at footing references
      obtain ⟨footing', -, record⟩ := unregister_origin footing h.fits.socks here
        (by simp only [references, Bool.toNat_true]; omega)
      refine tries_bare h footing' record ?_
      simp only [references, Bool.toNat_true]
      omega
    | false =>
      rw [on] at footing references
      obtain ⟨footing', record⟩ := unregister_foreign footing here
      exact tries_bare h footing' record references
  · have closed : c.originFd = -1 := by
      rw [h.fits.originFd, Course.originFd, if_neg isOpen]
    have same : (k.registered && !k.isOpen) = k.registered := by
      rw [(Bool.not_eq_true _).mp isOpen, Bool.not_false, Bool.and_true]
    rw [same, unregister_absent fun at' => valid_ne at'.1 closed]
    exact h

/-- The socket is given up: its item goes with it, unless it was left behind before. -/
theorem giveUp_writes (h : k.Tries c) (bad : k.status ≠ .succeeded)
    (eq : d = (errorHandlerToClient k.status (c.unregister c.originFd).2.closeOrigin).2) :
    k.giveUp.Writes d ∧ d.Requested := by
  have unregistered := unregistered_tries h
  have idle : (k.registered && !k.isOpen) = true →
      (c.unregister c.originFd).2.interestOf k.socket = opNoop := by
    intro left
    rw [Bool.and_eq_true, Bool.not_eq_true'] at left
    exact unregistered.fits.stale (by simp [left]) left.2
  have closed := closed_tries unregistered idle
  obtain ⟨after, watches'⟩ := failed_stored closed bad eq
  exact failed_writes after watches' fun isOpen => nomatch isOpen

/-- The answer to a connection that was established. -/
def Conn.establishedBy (c : Conn) (fd : Int) (req : RequestSt) : Conn :=
  let c := c.log (.getsockopt fd (some none))
  let c := { c with metrics := countConnection c.metrics }.log .counted
  (c.accessLog .succeeded).freeResolution req

theorem establishedBy_eq (c : Conn) (fd : Int) (req : RequestSt) : ∃ more,
    c.establishedBy fd req = { c with
      metrics := countConnection c.metrics
      calls := c.calls ++ ([.getsockopt fd (some none), .counted] ++ more) } := by
  unfold Conn.establishedBy Conn.freeResolution
  simp only
  split
  · exact ⟨[.accessLog (c.users.slots c.userIndex).name .succeeded, .freeaddrinfo],
      by simp [Conn.accessLog, Conn.log]⟩
  · exact ⟨[.accessLog (c.users.slots c.userIndex).name .succeeded],
      by simp [Conn.accessLog, Conn.log]⟩

theorem establishedBy_tries (h : k.Tries c) (req : RequestSt) :
    ({ k with established := true } : Course).Tries (c.establishedBy k.socket req) := by
  have first := tries_log (.getsockopt k.socket (some none)) h ⟨rfl, by simp⟩ rfl
  have second : k.Tries { c.log (.getsockopt k.socket (some none)) with
      metrics := countConnection c.metrics } :=
    ⟨fits_same [] first.fits ⟨rfl, rfl, rfl, rfl, rfl, rfl, rfl, rfl⟩ rfl rfl
      (List.append_nil _).symm (by simp) rfl, ⟨first.waits.sent, first.waits.queue⟩, first.request,
      first.conn⟩
  have third := tries_log .counted second ⟨rfl, by simp⟩ rfl
  have all := freeResolution_tries (accessLog_tries third .succeeded) req
  have f := all.fits
  refine ⟨⟨f.socks, f.footing, f.originFd, f.socket, f.references, f.released, f.left, f.tried,
    fun _ => ?_, f.stale⟩, ⟨all.waits.sent, all.waits.queue⟩, all.request, all.conn⟩
  obtain ⟨more, eq⟩ := establishedBy_eq c k.socket req
  rw [eq]
  simp

theorem stored_tries (h : k.Tries c) (status : SocksReplyStatus) :
    ({ k with status := status } : Course).Tries { c with orig := .conn ⟨c.clientFd, -1, status⟩ } :=
  ⟨fits_course (fits_same [] h.fits ⟨rfl, rfl, rfl, rfl, rfl, rfl, rfl, rfl⟩ rfl rfl
    (List.append_nil _).symm (by simp) rfl) rfl rfl rfl rfl rfl rfl rfl,
    ⟨h.waits.sent, h.waits.queue⟩, h.request, rfl⟩

/-- The success of a pending attempt is answered. -/
theorem established_writes {req : RequestSt} {wb : Buffer} (h : k.Tries c) (watches : k.Watches c)
    (pending : k.phase = .pending)
    (marshalled : requestMarshall .succeeded c.writeBuffer = some wb)
    (eq : d = ({ c.establishedBy k.socket req with
        orig := .conn ⟨c.clientFd, k.socket, .succeeded⟩, writeBuffer := wb }.setInterest c.clientFd
          opWrite).setInterest k.socket opNoop) :
    ({ k.answer .succeeded with established := true } : Course).Writes d ∧ d.Requested := by
  simp only [Course.Watches, pending] at watches
  obtain ⟨-, -, on, isOpen, -⟩ := watches
  have tries := establishedBy_tries h req
  have queue := queues_marshalled h.waits.queue .succeeded
  rw [marshalled, Option.getD_some] at queue
  obtain ⟨more, answered⟩ := establishedBy_eq c k.socket req
  rw [answered] at tries eq
  have fits : ({ k with established := true } : Course).Fits { c with
      metrics := countConnection c.metrics
      calls := c.calls ++ ([.getsockopt k.socket (some none), .counted] ++ more)
      orig := .conn ⟨c.clientFd, k.socket, .succeeded⟩, writeBuffer := wb } :=
    fits_same [] tries.fits ⟨rfl, rfl, rfl, rfl, rfl, rfl, rfl, rfl⟩ rfl rfl
      (List.append_nil _).symm (by simp) rfl
  have notStale : ∀ fd, ({ k with established := true } : Course).registered = true →
      ({ k with established := true } : Course).isOpen = false → fd ≠ k.socket :=
    fun _ _ closed => absurd (isOpen.symm.trans closed) (by decide)
  have first := fits_setInterest c.clientFd fits opWrite (notStale c.clientFd)
  have second := fits_setInterest k.socket first opNoop (notStale k.socket)
  rw [eq]
  have client := client_ne_socket h.fits
  refine ⟨⟨fits_course second rfl rfl rfl rfl rfl rfl rfl, fun _ => on, ?_, fun _ => ?_, ⟨_, rfl, rfl⟩,
    tries.request.imp fun _ there => there.1, ?_, (tries.waits.sent ▸ List.prefix_rfl)⟩,
    tries.request⟩
  · refine (interestOf_setInterest_ne client).trans ?_
    exact interestOf_setInterest fits.footing.client.registered
  · exact interestOf_setInterest (first.footing.origin on).registered
  · have sent := tries.waits.sent
    change sentTo c.clientFd (c.calls ++ ([.getsockopt k.socket (some none), .counted] ++ more)) ++
      bufferReadPtr wb = _
    rw [queue.unread]
    exact congrArg (· ++ repliesOf (k.said ++ [.succeeded])) sent

/-- What the outcome of the event has to do with an act of REQUEST_CONNECTING. -/
def Follows (o : Outcome) (c : Conn) : Act → Prop
  | .retry _ result taken => result = connectResult o c ∧ taken = decide c.Registrable
  | .retryAfter e _ result taken =>
    o.getsockopt = some (some e) ∧ result = connectResult o c ∧ taken = decide c.Registrable
  | .soError answer => o.getsockopt = answer
  | .giveUp => True
  | _ => False

/-- `connecting_write`: the next attempt, or the reply. -/
theorem connectingWrite_tries {o : Outcome} {fd : Int} {ret : Nat} (h : k.Tries c)
    (watches : k.Watches c) (delivered : Deliverable .write fd c)
    (ran : connectingWrite o fd c = .ok (ret, d)) :
    ∃ act k', k.Step act k' ∧ Follows o c act ∧
      (ret = SocksV5State.requestConnecting.num ∧ k'.Tries d ∧ k'.Watches d ∨
        ret = SocksV5State.requestWrite.num ∧ k'.phase = .writing ∧ k'.Writes d ∧ d.Requested) := by
  have ready : (c.interestOf fd).write = true := delivered.2.2
  -- the socket in an attempt that is pending, else the client
  have phase : k.phase = .pending ∧ fd = k.socket ∨ k.phase = .failing ∧ k.status ≠ .succeeded := by
    unfold Course.Watches at watches
    split at watches
    · rename_i pending
      refine Or.inl ⟨pending, ?_⟩
      rcases footing_delivered h.fits.footing delivered with rfl | ⟨-, eq⟩
      · rw [watches.1] at ready
        cases ready
      · exact eq
    · rcases footing_delivered h.fits.footing delivered with rfl | ⟨-, rfl⟩
      · rw [watches.1] at ready
        cases ready
      · rw [watches.2.1] at ready
        cases ready
    · rename_i failing
      exact Or.inr ⟨failing, watches.2.1⟩
    · exact watches.elim
  have item : c.Item fd := by
    rcases footing_delivered h.fits.footing delivered with rfl | ⟨on, rfl⟩
    · exact h.fits.footing.client
    · exact h.fits.footing.origin on
  have left := h.fits.left
  simp only [connectingWrite, Socks5.conn, h.conn, ok_bind] at ran
  by_cases good : k.status = .succeeded
  · obtain ⟨pending, rfl⟩ : k.phase = .pending ∧ fd = k.socket := by
      rcases phase with p | ⟨-, bad⟩
      · exact p
      · exact absurd good bad
    rw [if_neg (not_not_intro good)] at ran
    have paired : k.Paired := fun _ => by
      simp only [Course.Watches, pending] at watches
      exact watches.2.2.1
    have asked := tries_log (.getsockopt k.socket o.getsockopt) h ⟨rfl, by simp⟩ rfl
    split at ran
    · rename_i none'
      rw [setConnStatus_ok asked.conn, ok_bind, Except.ok.injEq] at ran
      obtain ⟨after, watches'⟩ := failed_tries (accessLog_tries asked .generalSocksServerFailure)
        (by decide) (congrArg Prod.snd ran).symm
      refine ⟨_, _, .unanswered pending good, none', Or.inr ⟨(congrArg Prod.fst ran).symm, rfl, ?_⟩⟩
      exact failed_writes after watches' paired
    · rename_i some'
      rw [some'] at ran
      have watched := watches
      simp only [Course.Watches, pending] at watched
      have silent := watched.2.2.2.2 good
      have queue := h.waits.queue
      rw [silent] at queue
      obtain ⟨wb, marshalled, -⟩ := queues_first queue .succeeded
      obtain ⟨req, -, ran⟩ := bind_eq_ok.mp ran
      obtain ⟨more, answered⟩ := establishedBy_eq c k.socket req
      have fits : requestMarshall .succeeded (c.establishedBy k.socket req).writeBuffer = some wb := by
        rw [answered]
        exact marshalled
      have sel : (c.establishedBy k.socket req).sel = c.sel := by rw [answered]
      split at ran
      · rename_i full
        exact nomatch full.symm.trans fits
      · rename_i wb' room
        obtain rfl : wb' = wb := Option.some.inj (room.symm.trans fits)
        rw [Except.ok.injEq] at ran
        refine ⟨_, _, .established pending good, some', Or.inr ⟨?_, rfl, ?_⟩⟩
        · refine (congrArg Prod.fst ran).symm.trans (if_pos ⟨?_, ?_⟩)
          · refine interestStatus_of_registered ?_
            change (c.establishedBy k.socket req).sel.Registered _
            rw [sel]
            exact h.fits.footing.client.registered
          · refine interestStatus_of_registered (((setInterest_retuned _ _ _).registered _).mpr ?_)
            change (c.establishedBy k.socket req).sel.Registered _
            rw [sel]
            exact (h.fits.footing.origin watched.2.2.1).registered
        · exact established_writes h watches pending marshalled (congrArg Prod.snd ran).symm
    · rename_i e some'
      rw [setConnStatus_ok asked.conn, ok_bind] at ran
      have stored := stored_tries asked (errnoToSocks e)
      split at ran
      · rename_i a next rest list
        have list : k.left = a :: next :: rest := left.symm.trans list
        obtain ⟨ret_eq, addr, heads, after, watches'⟩ :=
          nextAddress_tries stored item (errnoToSocks_ne e) ran
        exact ⟨_, _, .retryAfter e _ _ pending good list heads, ⟨some', rfl, rfl⟩,
          Or.inl ⟨ret_eq, after, watches'⟩⟩
      · rename_i list
        have last : k.left.length < 2 := by
          rw [← left, show c.originResolutionCurrent = [] from list]
          decide
        rw [Except.ok.injEq] at ran
        obtain ⟨after, watches'⟩ := failed_stored (accessLog_tries stored (errnoToSocks e))
          (errnoToSocks_ne e) (congrArg Prod.snd ran).symm
        exact ⟨_, _, .refused e pending good last, some',
          Or.inr ⟨(congrArg Prod.fst ran).symm, rfl, failed_writes after watches' paired⟩⟩
      · rename_i a list
        have last : k.left.length < 2 := by
          rw [← left, show c.originResolutionCurrent = [a] from list]
          simp
        obtain ⟨req, -, ran⟩ := bind_eq_ok.mp ran
        rw [Except.ok.injEq] at ran
        have logged := freeResolution_tries (accessLog_tries stored (errnoToSocks e)) req
        obtain ⟨after, watches'⟩ :=
          failed_stored logged (errnoToSocks_ne e) (congrArg Prod.snd ran).symm
        exact ⟨_, _, .refused e pending good last, some',
          Or.inr ⟨(congrArg Prod.fst ran).symm, rfl, failed_writes after watches' paired⟩⟩
  · have phase' : k.phase = .pending ∨ k.phase = .failing := by
      rcases phase with ⟨p, -⟩ | ⟨p, -⟩
      · exact Or.inl p
      · exact Or.inr p
    rw [if_pos good] at ran
    split at ran
    · rename_i a next rest list
      rw [left] at list
      obtain ⟨ret_eq, addr, heads, after, watches'⟩ := nextAddress_tries h item good ran
      exact ⟨_, _, .retry _ _ phase' good list heads, ⟨rfl, rfl⟩, Or.inl ⟨ret_eq, after, watches'⟩⟩
    · rename_i short
      have last : k.left.length < 2 := by
        rw [← left]
        match list : c.originResolutionCurrent with
        | [] => decide
        | [_] => simp
        | a :: next :: rest => exact absurd list (short a next rest)
      rw [Except.ok.injEq, Prod.mk.injEq] at ran
      obtain ⟨rfl, eq⟩ := Prod.mk.inj ((Prod.ext_iff.mpr ⟨ran.1, ran.2⟩ :
        errorHandlerToClient k.status (c.unregister c.originFd).2.closeOrigin = (ret, d)))
      exact ⟨_, _, .giveUp phase' good last, trivial, Or.inr ⟨rfl, rfl, giveUp_writes h good eq.symm⟩⟩

end

end SocksProxy
