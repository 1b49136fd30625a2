import SocksProxy.Frame

/-!
# Sessions follow their course

Every step of the running server takes a session from its place on a course to
its place on the next one, which the course reaches by an act of its own.
-/

namespace SocksProxy

open Lib

/-! ## What an act says of the step -/

/-- The `recv` of an event finishes the request, and leaves the parser as `p`. -/
def Finishes (s : Session) (o : Outcome) (p : RequestParser) : Prop :=
  ∃ d bytes q rb, s.conn.client = .request d ∧ d.parser = .live q ∧
    recvBytes o (bufferWritePtr s.conn.readBuffer) = some bytes ∧
    requestConsume (bufferFill s.conn.readBuffer bytes) q false = .ok (rb, p) ∧ p.state = .done

/-- An event that finishes a request for a domain and gets no key or no thread to
resolve it with. -/
def NoResolver (s : Session) (l : Label) : Prop :=
  ∃ fd o p, l = .event .read fd o ∧ s.In .requestRead ∧ Finishes s o p ∧
    p.request.destAddrType = socksReqAddrtypeDomain ∧ (o.mallocKey = false ∨ o.pthreadCreate = -1)

/-- The event finishes a request for an address, or takes up the addresses of a domain. -/
def Starts (s : Session) (l : Label) (o : Outcome) : Prop :=
  (∃ fd p, l = .event .read fd o ∧ s.In .requestRead ∧ Finishes s o p ∧
      p.request.destAddrType ≠ socksReqAddrtypeDomain) ∨
    ∃ fd, l = .event .block fd o ∧ s.In .requestResolv ∧ s.conn.originResolution ≠ []

/-- What the outcome of a step has to do with the act it makes. -/
def Explains (k : Course) (s : Session) (l : Label) (t : Session) : Act → Prop
  | .idle => ∀ fd o, l = .event .write fd o → ¬ s.In .requestConnecting
  | .breakDown => ∃ e fd o, l = .event e fd o ∧ s.LetsOn o ∧
      (o.malloc 1 = false ∨ o.malloc 2 = false)
  | .refuse _ => NoResolver s l
  | .unresolved => s.conn.originResolution = []
  | .noSocket => ∃ o, Starts s l o ∧ o.socket = none
  | .noNio => ∃ o n, Starts s l o ∧ o.socket = some n ∧ o.setNio = false
  | .first left _ result taken => ∃ o n, Starts s l o ∧ o.socket = some n ∧ o.setNio = true ∧
      o.connect = result ∧ taken = decide (s.conn.sel.Takes n) ∧
      (s.In .requestResolv → left = s.conn.originResolution)
  | .retry addr result taken =>
    ∃ fd o, l = .event .write fd o ∧ Follows o s.conn (.retry addr result taken)
  | .retryAfter error addr result taken =>
    ∃ fd o, l = .event .write fd o ∧ Follows o s.conn (.retryAfter error addr result taken)
  | .soError answer => ∃ fd o, l = .event .write fd o ∧ Follows o s.conn (.soError answer)
  | .copy | .close => k.phase = .writing →
      sentTo t.conn.clientFd t.conn.calls = k.base ++ repliesOf k.said
  | _ => True

/-- The course goes on as the session does. -/
def Course.Advances (k : Course) (s : Session) (l : Label) (t : Session) : Prop :=
  ∃ act k', k.Step act k' ∧ k'.Place t ∧ Explains k s l t act

section
variable {k : Course} {c d : Conn} {s t : Session} {l : Label} {e : Event} {o : Outcome} {fd : Int}
  {state next : SocksV5State} {mid : Conn}

/-! ## Between two states -/

theorem enters_stays (h : Enters state state o fd mid t) (going : state ≠ .done ∧ state ≠ .error) :
    t.conn = mid := by
  obtain ⟨last, ⟨-, rfl⟩ | ⟨ne, -⟩, ended⟩ := h.hooks
  · rcases ended with ⟨terminal | terminal, -⟩ | ⟨-, -, eq⟩
    · exact absurd terminal going.1
    · exact absurd terminal going.2
    · exact eq
  · exact absurd rfl ne

theorem enters_moves (h : Enters state next o fd mid t) (ne : state ≠ next)
    (going : next ≠ .done ∧ next ≠ .error) : ∃ left,
      runHook (state.entry o fd).onDeparture mid = .ok left ∧
        runHook (next.entry o fd).onArrival left = .ok t.conn := by
  obtain ⟨last, ⟨same, -⟩ | ⟨-, left, departed, arrived⟩, ended⟩ := h.hooks
  · exact absurd same ne
  · rcases ended with ⟨terminal | terminal, -⟩ | ⟨-, -, eq⟩
    · exact absurd terminal going.1
    · exact absurd terminal going.2
    · exact ⟨left, departed, by rw [eq]; exact arrived⟩

theorem fits_client (h : k.Fits c) (x : ClientSt) : k.Fits { c with client := x } :=
  fits_same [] h ⟨rfl, rfl, rfl, rfl, rfl, rfl, rfl, rfl⟩ rfl rfl (List.append_nil _).symm (by simp)
    rfl

/-- The hooks that leave a state only touch the union of the client. -/
theorem departure_client (h : runHook (state.entry o fd).onDeparture c = .ok d) :
    ∃ x, d = { c with client := x } := by
  have same : ∀ {d : Conn}, (Except.ok c : Result Conn) = .ok d → ∃ x, d = { c with client := x } :=
    fun eq => ⟨c.client, (Except.ok.inj eq).symm⟩
  cases state with
  | helloRead =>
    have h : helloReadClose fd c = .ok d := h
    obtain ⟨d', -, ⟨-, rfl⟩ | rfl⟩ := helloReadClose_ok h
    · exact ⟨_, rfl⟩
    · exact ⟨_, rfl⟩
  | userpassRead =>
    have h : authReadClose fd c = .ok d := h
    obtain ⟨d', parser, -, rfl⟩ := authReadClose_ok h
    exact ⟨_, rfl⟩
  | requestRead =>
    have h : requestClose fd c = .ok d := h
    obtain ⟨d', rfl, -⟩ := requestClose_ok h
    exact ⟨_, rfl⟩
  | requestConnecting =>
    have h : connectingClose fd c = .ok d := h
    obtain ⟨d', rfl⟩ := connectingClose_ok h
    exact ⟨_, rfl⟩
  | helloWrite => exact same h
  | userpassWrite => exact same h
  | requestResolv => exact same h
  | requestWrite => exact same h
  | copy => exact same h
  | done => exact same h
  | error => exact same h

/-- Entering DONE or ERROR ends the connection. -/
theorem enters_ends (h : Enters state next o fd mid t) (terminal : next = .done ∨ next = .error)
    (fits : k.Fits mid) (paired : k.Paired) (stm : t.stm = { s.stm with current := some next.num }) :
    t.In next ∧ k.Ended t.conn ∧
      ∃ ended, t.conn.calls = mid.calls ++ ended ∧ t.conn.clientFd = mid.clientFd ∧
        ∀ call ∈ ended, call.Ending := by
  obtain ⟨last, crossed, ended⟩ := h.hooks
  obtain ⟨x, rfl⟩ : ∃ x, last = { mid with client := x } := by
    rcases crossed with ⟨-, rfl⟩ | ⟨-, left, departed, arrived⟩
    · exact ⟨last.client, rfl⟩
    · obtain ⟨x, rfl⟩ := departure_client departed
      refine ⟨x, ?_⟩
      rcases terminal with rfl | rfl <;> exact (Except.ok.inj arrived).symm
  rcases ended with ⟨-, ended⟩ | ⟨notDone, notError, -⟩
  · obtain ⟨references, calls, record, ending⟩ := @finish_record true _ _ ended
    refine ⟨⟨?_, by rw [stm]⟩, done_ended (fits_client fits x) paired ended, calls, ?_, ?_, ending⟩
    · rw [record]
      exact fits.socks
    · rw [record]
    · rw [record]
  · exact terminal.elim (absurd · notDone) (absurd · notError)

/-! ## The negotiation -/

theorem negotiates_quiet {call : Call} (h : call.Negotiates) : call.Quiet := by
  cases call <;> first | exact h.elim | exact ⟨rfl, by simp⟩

theorem fits_talked (h : k.Fits c) (off : k.registered = false) (talked : c.Talked fd d) :
    k.Fits d := by
  obtain ⟨more, calls, negotiates⟩ := talked.calls
  exact fits_retuned [fd] more h talked.same talked.tuned
    (by rw [talked.method]; exact h.footing.method) calls
    (fun call member => negotiates_quiet (negotiates call member)) talked.left
    (fun on => absurd (off.symm.trans on) (by decide))

theorem stands_talked {status : SocksReplyStatus} (h : c.Stands status) (talked : c.Talked fd d) :
    d.Stands status := by
  unfold Socks5.Stands at h ⊢
  rw [talked.orig]
  exact h

theorem errorHandler_fits (h : k.Fits c) (off : k.registered = false) (status : SocksReplyStatus)
    (fd : Int) : k.Fits (errorHandler status fd c).2 := by
  have marshalled : k.Fits (c.marshalled status) :=
    fits_same [] h ⟨rfl, rfl, rfl, rfl, rfl, rfl, rfl, rfl⟩ rfl rfl (List.append_nil _).symm
      (by simp) rfl
  exact fits_setInterest fd marshalled opWrite (fun on => absurd (off.symm.trans on) (by decide))

theorem errorHandler_interest (h : k.Fits c) (status : SocksReplyStatus) :
    (errorHandler status c.clientFd c).2.interestOf c.clientFd = opWrite :=
  interestOf_tuned (c := c.marshalled status) h.footing.client.registered rfl

/-- Arriving in REQUEST_READ, with nothing left to send. -/
theorem requestInit_advances (fits : (Course.fresh .talking []).Fits c) (stands : c.Stands .succeeded)
    (limit : c.writeBuffer.limit = rawBuffSize) (rewound : c.writeBuffer.Rewound)
    (flushed : bufferReadPtr c.writeBuffer = []) (reading : c.interestOf c.clientFd = opRead)
    (lets : s.LetsOn o) (init : requestInit o c.clientFd c = .ok t.conn)
    (current : t.stm.current = some SocksV5State.requestRead.num) :
    (Course.fresh .talking []).Advances s (.event e c.clientFd o) t := by
  have enters : ∀ {base phase}, (Course.fresh .talking []).Fits t.conn →
      (Course.fresh phase base).Fits t.conn :=
    fun fits => fits_course fits rfl rfl rfl rfl rfl rfl rfl
  rcases requestInit_ok init with ⟨-, -, eq⟩ | ⟨failed, x, d, eq, how⟩
  · refine ⟨.request (sentTo c.clientFd c.calls), _, .request _ rfl, ?_, trivial⟩
    have fits' : (Course.fresh .talking []).Fits t.conn := by
      rw [eq]
      exact fits_client fits _
    refine ⟨⟨fits'.socks, current⟩, ?_, rfl, enters fits', ⟨?_, ?_⟩, ?_, ?_⟩
    · rw [eq]
      exact reading
    · rw [eq]
      rfl
    · rw [eq]
      exact ⟨flushed, (rewound.room flushed).1, limit⟩
    · rw [eq]
      exact stands
    · rw [eq]
      exact ⟨_, [], rfl, rfl, rfl⟩
  · refine ⟨.breakDown, _, .breakDown (sentTo c.clientFd c.calls) rfl, ?_, e, c.clientFd, o, rfl,
      lets, failed⟩
    have once := errorHandler_fits fits rfl .generalSocksServerFailure c.clientFd
    have twice := errorHandler_fits once rfl .generalSocksServerFailure c.clientFd
    have fits' : (Course.fresh .talking []).Fits t.conn := by
      rw [eq]
      rcases how with rfl | rfl
      · exact fits_client once _
      · exact fits_client twice _
    refine ⟨⟨fits'.socks, current⟩, ?_, rfl, enters fits'⟩
    rw [eq]
    rcases how with rfl | rfl
    · exact errorHandler_interest fits _
    · exact errorHandler_interest once _

theorem talking_advances (phase : k.phase = .talking) (place : k.Place s)
    (h : handleEvent e o s.conn.clientFd s = .ok t) :
    k.Advances s (.event e s.conn.clientFd o) t := by
  have early : ¬ s.In .requestConnecting := fun at' => by
    have covers := place_covers place at'
    rw [phase] at covers
    cases covers
  simp only [Course.Place, phase] at place
  obtain ⟨talks, methods, rfl, fits, stands, limit, rewound⟩ := place
  have ends : s.conn.Ends := ⟨fits.footing.errorState, fits.footing.doneState⟩
  rcases talks_event talks methods ends fits.footing.method h with ⟨talks, methods, talked⟩ |
      ⟨ret, last, terminal, current, talked, fin⟩ |
      ⟨current, lets, mid, talked, flushed, reading, arrival⟩
  · refine ⟨.idle, _, .idle, ?_, fun _ _ _ => early⟩
    exact ⟨talks, methods, rfl, fits_talked fits rfl talked, stands_talked stands talked,
      talked.limit.trans limit, talked.rewound rewound⟩
  · have fits' := fits_talked fits rfl talked
    rw [fits.socks] at terminal fin
    have ended := done_ended fits' (fun isOpen => by cases isOpen) fin
    have socks : t.conn.isSocks = true := by
      obtain ⟨_, _, record, -⟩ := finish_record fin
      rw [record]
      exact fits'.socks
    rcases terminal with rfl | rfl
    · exact ⟨.fail, _, .fail (Or.inl rfl), ⟨⟨socks, current⟩, ended⟩, trivial⟩
    · exact ⟨.close, _, .close (Or.inl rfl), ⟨⟨socks, current⟩, ended⟩, fun writing => by cases writing⟩
  · have clientFd := talked.same.clientFd
    unfold requestArrival at arrival
    rw [fits.socks, if_pos rfl] at arrival
    rw [← clientFd] at arrival reading ⊢
    exact requestInit_advances (fits_talked fits rfl talked) (stands_talked stands talked)
      (talked.limit.trans limit) (talked.rewound rewound) flushed reading lets arrival current

/-! ## REQUEST_READ -/

theorem waits_moved {more : List Call} (h : k.Waits c) (clientFd : d.clientFd = c.clientFd)
    (calls : d.calls = c.calls ++ more) (silent : sentTo c.clientFd more = [])
    (writeBuffer : d.writeBuffer = c.writeBuffer) : k.Waits d := by
  refine ⟨?_, ?_⟩
  · rw [clientFd, calls, sentTo_append, silent, List.append_nil]
    exact h.sent
  · rw [writeBuffer]
    exact h.queue

/-- A refusal before there is an origin: the reply is queued, with the status that
the union of the origin holds. -/
theorem errorHandler_writes {w : SocksReplyStatus} (fits : k.Fits c) (waits : k.Waits c)
    (off : k.registered = false) (closed : k.isOpen = false) (status : SocksReplyStatus)
    (stands : c.Stands w) (request : ∃ d, c.client = .request d) :
    ({ k.say status with phase := .writing, status := w } : Course).Writes
      (errorHandler status c.clientFd c).2 := by
  have queue := queues_marshalled waits.queue status
  refine ⟨fits_course (errorHandler_fits fits off status c.clientFd) rfl rfl rfl rfl rfl rfl rfl,
    fun isOpen => absurd (closed.symm.trans isOpen) (by decide), errorHandler_interest fits status,
    fun on => absurd (off.symm.trans on) (by decide), stands, request, ?_,
    (waits.sent ▸ List.prefix_rfl)⟩
  change sentTo c.clientFd c.calls ++
    bufferReadPtr ((requestMarshall status c.writeBuffer).getD c.writeBuffer) = _
  rw [waits.sent, queue.unread]
  rfl

theorem writes_client (h : k.Writes c) (x : RequestSt) :
    k.Writes { c with client := .request x } :=
  ⟨fits_client h.fits _, h.paired, h.client, h.origin, h.status, ⟨x, rfl⟩, h.bytes, h.ahead⟩

/-- Arriving in REQUEST_CONNECTING with the addresses `left`. -/
theorem connectingInit_advances {left : List AddrInfo} {base : List UInt8} {phase : Phase}
    (early : phase = .reading ∨ phase = .resolving)
    (ready : ({ Course.fresh phase base with left := left } : Course).Ready c) (item : c.Item fd)
    (heads : Heads left c.originAddr) (fresh : ∀ n : Nat, o.socket = some n → c.isOpen n = false)
    (starts : Starts s l o) (sel : c.sel.fds = s.conn.sel.fds)
    (list : s.In .requestResolv → left = s.conn.originResolution)
    (init : connectingInit o fd c = .ok t.conn)
    (current : t.stm.current = some SocksV5State.requestConnecting.num) :
    (Course.fresh phase base).Advances s l t := by
  obtain ⟨k', tries, watches, how⟩ := connectingInit_tries ready item fresh init
  have place : k'.Place t := by
    have at' : t.In .requestConnecting := ⟨tries.fits.socks, current⟩
    cases phase' : k'.phase <;> simp only [Course.Watches, phase'] at watches <;>
      simp only [Course.Place, phase']
    all_goals exact ⟨at', tries, by simpa only [Course.Watches, phase'] using watches⟩
  rcases how with ⟨none', rfl⟩ | ⟨n, opened, ⟨blocking, rfl⟩ | ⟨nio, rfl⟩⟩
  · exact ⟨.noSocket, _, .noSocket left early, place, o, starts, none'⟩
  · exact ⟨.noNio, _, .noNio left n early, place, o, n, starts, opened, blocking⟩
  · have takes : c.sel.Takes n ↔ s.conn.sel.Takes n := by
      unfold FdSelector.Takes
      rw [sel]
    exact ⟨.first left c.originAddr o.connect _, _, .first n _ _ early heads, place, o, n, starts,
      opened, nio, rfl, decide_eq_decide.mpr takes, list⟩

theorem resolving_fits (fits : k.Fits c) (waits : k.Waits c) (d : RequestSt) (fd : Int)
    (created : Bool) : k.Fits (c.resolving d fd created) ∧ k.Waits (c.resolving d fd created) := by
  cases created with
  | true =>
    refine ⟨fits_same [.threadCreated] fits ⟨rfl, rfl, rfl, rfl, rfl, rfl, rfl, rfl⟩ rfl rfl rfl ?_ rfl,
      waits_moved waits rfl rfl rfl rfl⟩
    simp [Call.Quiet, Call.attempt]
  | false => exact ⟨fits_client fits _, ⟨waits.sent, waits.queue⟩⟩

/-- A finished request. -/
theorem requestProcess_advances {base : List UInt8} {p : RequestParser} {d : RequestSt}
    (fits : (Course.fresh .reading base).Fits c) (waits : (Course.fresh .reading base).Waits c)
    (stands : c.Stands .succeeded) (at' : s.In .requestRead)
    (finishes : Finishes s o p) (connect : p.request.cmd = socksReqCmdConnect)
    (type : p.request.destAddrType ∈
      [socksReqAddrtypeIpv4, socksReqAddrtypeDomain, socksReqAddrtypeIpv6])
    (fresh : ∀ n : Nat, o.socket = some n → c.isOpen n = false) (sel : c.sel.fds = s.conn.sel.fds)
    (ran : (next.num, mid) = requestProcess o c.clientFd d p c)
    (stm : t.stm = { s.stm with current := some next.num })
    (entered : Enters .requestRead next o c.clientFd mid t) :
    (Course.fresh .reading base).Advances s (.event .read c.clientFd o) t := by
  rcases requestProcess_cases o c.clientFd d p c with ⟨family, status, bad, why, eq⟩ |
      ⟨isAddr, family, domain, len, addr, eq⟩ | ⟨isDomain, created, eq⟩
  · rw [eq] at ran
    obtain ⟨ret_eq, rfl⟩ := Prod.mk.inj ran
    obtain rfl : next = .requestWrite := SocksV5State.num_inj ret_eq
    obtain ⟨left, departed, arrived⟩ := enters_moves entered (by decide) (by decide)
    have departed : requestClose c.clientFd _ = .ok left := departed
    obtain ⟨d', closed, -⟩ := requestClose_ok departed
    obtain rfl : left = t.conn := Except.ok.inj arrived
    have writes := errorHandler_writes (w := .succeeded)
      (c := { c with client := .request { d with addrFamily := family, status := status } })
      (fits_client fits _) ⟨waits.sent, waits.queue⟩ rfl rfl status stands ⟨_, rfl⟩
    have writes' := writes_client writes d'
    refine ⟨.refuse status, _, .refuse status rfl bad, ⟨⟨?_, by rw [stm]⟩, ?_⟩, c.clientFd, o, p, rfl,
      at', finishes, ?_⟩
    · rw [closed]
      exact writes'.fits.socks
    · rw [closed]
      exact writes'
    · exact (why connect).resolve_right fun unsupported => unsupported type
  · rw [eq] at ran
    obtain ⟨ret_eq, rfl⟩ := Prod.mk.inj ran
    obtain rfl : next = .requestConnecting := SocksV5State.num_inj ret_eq
    obtain ⟨left, departed, arrived⟩ := enters_moves entered (by decide) (by decide)
    have departed : requestClose c.clientFd _ = .ok left := departed
    obtain ⟨d', closed, kept⟩ := requestClose_ok departed
    have ready : ({ Course.fresh .reading base with left := [] } : Course).Ready left := by
      rw [closed]
      refine ⟨?_, ⟨waits.sent, waits.queue⟩, ⟨d', rfl, kept⟩, rfl, rfl, rfl, rfl, rfl⟩
      exact fits_same [] fits ⟨rfl, rfl, rfl, rfl, rfl, rfl, rfl, rfl⟩ rfl rfl (List.append_nil _).symm
        (by simp) rfl
    have item : left.Item c.clientFd := by
      rw [closed]
      exact fits.footing.client
    refine connectingInit_advances (Or.inl rfl) ready item ?_ ?_ ?_ ?_ ?_ arrived
      (by rw [stm])
    · intro a rest list
      cases list
    · rw [closed]
      exact fresh
    · exact Or.inl ⟨c.clientFd, p, rfl, at', finishes, isAddr⟩
    · rw [closed]
      exact sel
    · exact fun resolv => absurd (at'.2.symm.trans resolv.2) (by decide)
  · rw [eq] at ran
    obtain ⟨ret_eq, rfl⟩ := Prod.mk.inj ran
    obtain rfl : next = .requestResolv := SocksV5State.num_inj ret_eq
    obtain ⟨left, departed, arrived⟩ := enters_moves entered (by decide) (by decide)
    have departed : requestClose c.clientFd _ = .ok left := departed
    obtain ⟨d', closed, kept⟩ := requestClose_ok departed
    obtain rfl : left = t.conn := Except.ok.inj arrived
    obtain ⟨asked, waits'⟩ := resolving_fits fits waits
      { d with addrFamily := socksReqAddrtypeDomain } c.clientFd created
    have clientFd : (c.resolving { d with addrFamily := socksReqAddrtypeDomain } c.clientFd
        created).clientFd = c.clientFd := by cases created <;> rfl
    have orig : (c.resolving { d with addrFamily := socksReqAddrtypeDomain } c.clientFd
        created).orig = c.orig := by cases created <;> rfl
    refine ⟨.resolve, _, .resolve rfl, ?_, trivial⟩
    refine ⟨⟨?_, by rw [stm]⟩, ?_, rfl, ?_, ?_, ?_, d', ?_, kept⟩
    · rw [closed]
      exact asked.socks
    · rw [closed]
      refine (congrArg _ clientFd).trans ?_
      have registered := asked.footing.client.registered
      rw [clientFd] at registered
      exact interestOf_tuned registered rfl
    · rw [closed]
      exact fits_course (fits_client (fits_setInterest c.clientFd asked opNoop fun on => nomatch on) _)
        rfl rfl rfl rfl rfl rfl rfl
    · rw [closed]
      exact ⟨waits'.sent, waits'.queue⟩
    · rw [closed]
      obtain ⟨conn, member, status⟩ := stands
      exact ⟨conn, orig.trans member, status⟩
    · rw [closed]

theorem reading_advances (phase : k.phase = .reading) (place : k.Place s)
    (opens : ∀ n : Nat, o.socket = some n → s.conn.isOpen n = false)
    (h : handleEvent e o s.conn.clientFd s = .ok t) :
    k.Advances s (.event e s.conn.clientFd o) t := by
  simp only [Course.Place, phase] at place
  obtain ⟨at', reading, fresh, fits, waits, stands, d, fed, member, good, live⟩ := place
  obtain ⟨handler, mid, next, picked, ran, stm, entered⟩ := socks_event at' h
  obtain rfl : e = .read := by
    cases e
    · rfl
    · cases picked
    · cases picked
  obtain rfl : requestRead o s.conn.clientFd = handler := Option.some.inj picked
  obtain ⟨d', member', read⟩ := requestRead_ok ran
  obtain rfl : d = d' := ClientSt.request.inj (member.symm.trans member')
  rcases read with ⟨failed, -⟩ | ⟨-, got, -, empty, ret_eq, rfl⟩ |
      ⟨-, bytes, p, rb, p', nonempty, got, live', consumed, after⟩
  · exact absurd good failed
  · obtain rfl : next = .error := SocksV5State.num_inj ret_eq
    have logged : k.Fits (s.conn.log (.recv s.conn.clientFd got)) :=
      fits_same [_] fits ⟨rfl, rfl, rfl, rfl, rfl, rfl, rfl, rfl⟩ rfl rfl rfl
        (by simp [Call.Quiet, Call.attempt]) rfl
    obtain ⟨at'', ended, -⟩ :=
      enters_ends entered (Or.inr rfl) logged (fun isOpen => by rw [fresh] at isOpen; cases isOpen) stm
    exact ⟨.fail, _, .fail (Or.inr (Or.inl phase)), ⟨at'', ended⟩, trivial⟩
  · obtain rfl : requestParse fed = p := Owned.live.inj (live.symm.trans live')
    have fedAll := (drain_ok (Nat.le_of_eq (bufferReadPtr_length _)) consumed).1
    obtain ⟨more, -, rfl⟩ := parse_fed fedAll
    have fits' : k.Fits (requestFed s.conn.clientFd s.conn d bytes rb (requestParse (fed ++ more))) :=
      fits_same [_] fits ⟨rfl, rfl, rfl, rfl, rfl, rfl, rfl, rfl⟩ rfl rfl rfl
        (by simp [Call.Quiet, Call.attempt]) rfl
    have waits' : k.Waits (requestFed s.conn.clientFd s.conn d bytes rb (requestParse (fed ++ more))) :=
      waits_moved waits rfl rfl rfl rfl
    rcases after with ⟨done, goes⟩ | ⟨going, ret_eq, rfl⟩
    · obtain ⟨connect, type⟩ := parse_supported done
      rw [fresh] at fits' waits' ⊢
      exact requestProcess_advances
        (c := requestFed s.conn.clientFd s.conn d bytes rb (requestParse (fed ++ more)))
        fits' waits' stands at'
        ⟨d, bytes, _, rb, member, live, got, consumed, done⟩ connect type opens rfl goes stm entered
    · obtain rfl : next = .requestRead := SocksV5State.num_inj ret_eq
      have same := enters_stays entered (by decide)
      refine ⟨.idle, k, .idle, ?_, fun _ _ label => by cases label⟩
      simp only [Course.Place, phase]
      rw [same]
      refine ⟨⟨?_, by rw [stm]⟩, reading, fresh, fits', waits', stands,
        { d with parser := .live (requestParse (fed ++ more)) }, fed ++ more, rfl, good, rfl⟩
      rw [same]
      exact fits'.socks

/-- A session whose request could not be set up waits to write, with no handler for it. -/
theorem broken_stuck (phase : k.phase = .broken) (place : k.Place s)
    (delivered : e ≠ .block → Deliverable e s.conn.clientFd s.conn) :
    handleEvent e o s.conn.clientFd s ≠ .ok t := by
  intro h
  simp only [Course.Place, phase] at place
  obtain ⟨at', writing, -⟩ := place
  obtain ⟨handler, mid, next, picked, -⟩ := socks_event at' h
  cases e with
  | read =>
    have ready : (s.conn.interestOf s.conn.clientFd).read = true := (delivered (by decide)).2.2
    rw [writing] at ready
    cases ready
  | write => cases picked
  | block => cases picked

/-! ## REQUEST_RESOLV -/

/-- The record with the first address of the answer. -/
theorem resolved_eq (current : AddrInfo) (rest : List AddrInfo) (c : Conn) : ∃ addr domain len,
    setOriginAddr current (setOriginDomain current
        { c with originResolutionCurrent := current :: rest }) =
      { c.movedOn (current :: rest) addr with originDomain := domain, originAddrLen := len } ∧
    Heads (current :: rest) addr := by
  have heads : ∀ {addr}, (current.family = afInet ∨ current.family = afInet6 →
      addr = current.addr) → Heads (current :: rest) addr := by
    intro addr known a rest' list family
    obtain ⟨rfl, -⟩ := List.cons.inj list
    exact known family
  unfold setOriginAddr setOriginDomain
  by_cases v4 : current.family = afInet
  · simp only [v4, if_true, true_or]
    exact ⟨current.addr, _, _, rfl, heads fun _ => rfl⟩
  · by_cases v6 : current.family = afInet6
    · simp only [v6, if_true, or_true]
      exact ⟨current.addr, _, _, rfl, heads fun _ => rfl⟩
    · simp only [v4, v6, if_false, or_self]
      exact ⟨c.originAddr, c.originDomain, c.originAddrLen, rfl,
        heads fun known => absurd known (by simp [v4, v6])⟩

theorem resolving_advances (phase : k.phase = .resolving) (place : k.Place s)
    (opens : ∀ n : Nat, o.socket = some n → s.conn.isOpen n = false)
    (h : handleEvent e o s.conn.clientFd s = .ok t) :
    k.Advances s (.event e s.conn.clientFd o) t := by
  simp only [Course.Place, phase] at place
  obtain ⟨at', noop, fresh, fits, waits, ⟨conn, member, status⟩, d, request, kept⟩ := place
  obtain ⟨handler, mid, next, picked, ran, stm, entered⟩ := socks_event at' h
  obtain rfl : e = .block := by
    cases e
    · cases picked
    · cases picked
    · rfl
  obtain rfl : requestResolvDone s.conn.clientFd = handler := Option.some.inj picked
  unfold requestResolvDone at ran
  split at ran
  · rename_i unresolved
    simp only [Socks5.conn, member, request_ok.mpr request, ok_bind, Except.ok.injEq] at ran
    obtain ⟨ret_eq, rfl⟩ := Prod.mk.inj ran
    obtain rfl : next = .requestWrite := SocksV5State.num_inj ret_eq.symm
    obtain ⟨left, departed, arrived⟩ := enters_moves entered (by decide) (by decide)
    obtain rfl := Except.ok.inj departed
    have same := Except.ok.inj arrived
    have writes := errorHandler_writes (w := .generalSocksServerFailure) (c := { s.conn with
        orig := .conn { conn with status := .generalSocksServerFailure }
        client := .request { d with status := .generalSocksServerFailure } })
      (fits_same [] fits ⟨rfl, rfl, rfl, rfl, rfl, rfl, rfl, rfl⟩ rfl rfl (List.append_nil _).symm
        (by simp) rfl) ⟨waits.sent, waits.queue⟩ (by rw [fresh]; rfl) (by rw [fresh]; rfl)
      .generalSocksServerFailure ⟨_, rfl, rfl⟩ ⟨_, rfl⟩
    refine ⟨.unresolved, _, .unresolved phase, ⟨⟨?_, by rw [stm]⟩, ?_⟩, unresolved⟩
    · rw [← same]
      exact writes.fits.socks
    · rw [← same]
      exact writes
  · rename_i current rest list
    rw [Except.ok.injEq] at ran
    obtain ⟨ret_eq, eq⟩ := Prod.mk.inj ran
    obtain rfl : next = .requestConnecting := SocksV5State.num_inj ret_eq.symm
    obtain ⟨left, departed, arrived⟩ := enters_moves entered (by decide) (by decide)
    obtain rfl := Except.ok.inj departed
    obtain ⟨addr, domain, len, moved, heads⟩ := resolved_eq current rest s.conn
    rw [moved] at eq
    have off : k.registered = false := by rw [fresh]; rfl
    have f := fits.footing
    have ready : ({ Course.fresh .resolving k.base with left := current :: rest } : Course).Ready
        mid := by
      rw [← eq]
      rw [fresh] at fits waits
      exact ⟨⟨fits.socks, footing_same fits.footing ⟨rfl, rfl, rfl, rfl, rfl, rfl, rfl, rfl⟩ rfl rfl,
        fits.originFd, fits.socket, fits.references, fits.released, rfl, fits.tried,
        fits.established, fits.stale⟩, ⟨waits.sent, waits.queue⟩, ⟨d, request, kept⟩, rfl, rfl, rfl,
        rfl, rfl⟩
    have item : mid.Item s.conn.clientFd := by
      rw [← eq]
      exact fits.footing.client
    rw [fresh]
    refine connectingInit_advances (Or.inr rfl) ready item ?_ ?_ ?_ ?_ (fun _ => list.symm) arrived
      (by rw [stm])
    · rw [← eq]
      exact heads
    · rw [← eq]
      exact opens
    · exact Or.inr ⟨s.conn.clientFd, rfl, at', by rw [list]; simp⟩
    · rw [← eq]
      rfl

/-! ## REQUEST_CONNECTING -/

theorem trying_place (tries : k.Tries t.conn) (watches : k.Watches t.conn)
    (current : t.stm.current = some SocksV5State.requestConnecting.num) : k.Place t := by
  have at' : t.In .requestConnecting := ⟨tries.fits.socks, current⟩
  cases phase : k.phase <;> simp only [Course.Watches, phase] at watches <;>
    simp only [Course.Place, phase]
  all_goals exact ⟨at', tries, by simpa only [Course.Watches, phase] using watches⟩

theorem trying_advances (at' : s.In .requestConnecting) (tries : k.Tries s.conn)
    (watches : k.Watches s.conn) (delivered : e = .write → Deliverable .write fd s.conn)
    (h : handleEvent e o fd s = .ok t) : k.Advances s (.event e fd o) t := by
  obtain ⟨handler, mid, next, picked, ran, stm, entered⟩ := socks_event at' h
  obtain rfl : e = .write := by
    cases e
    · cases picked
    · rfl
    · cases picked
  obtain rfl : connectingWrite o fd = handler := Option.some.inj picked
  obtain ⟨act, k', step, follows, how⟩ :=
    connectingWrite_tries tries watches (delivered rfl) ran
  refine ⟨act, k', step, ?_, ?_⟩
  · rcases how with ⟨ret_eq, tries', watches'⟩ | ⟨ret_eq, phase, writes, -⟩
    · obtain rfl : next = .requestConnecting := SocksV5State.num_inj ret_eq
      have same := enters_stays entered (by decide)
      rw [← same] at tries' watches'
      exact trying_place tries' watches' (by rw [stm])
    · obtain rfl : next = .requestWrite := SocksV5State.num_inj ret_eq
      obtain ⟨left, departed, arrived⟩ := enters_moves entered (by decide) (by decide)
      have departed : connectingClose fd mid = .ok left := departed
      obtain ⟨d, closed⟩ := connectingClose_ok departed
      obtain rfl : left = t.conn := Except.ok.inj arrived
      simp only [Course.Place, phase]
      rw [closed]
      exact ⟨⟨by rw [closed]; exact writes.fits.socks, by rw [stm]⟩, writes_client writes d⟩
  · cases act with
    | retry | retryAfter | soError => exact ⟨fd, o, rfl, follows⟩
    | giveUp => trivial
    | _ => exact follows.elim

/-! ## REQUEST_WRITE -/

theorem fits_sentOff (h : k.Fits c) (fd : Int) (bytes : List UInt8) : k.Fits (c.sentOff fd bytes) :=
  fits_same [_] h ⟨rfl, rfl, rfl, rfl, rfl, rfl, rfl, rfl⟩ rfl rfl rfl
    (by simp [Call.Quiet, Call.attempt]) rfl

/-- What `send` took was the beginning of what was to be written. -/
theorem sentOff_bytes {bytes : List UInt8} (sent : sentBytes o c.writeBuffer = some bytes) :
    sentTo c.clientFd (c.sentOff c.clientFd bytes).calls ++
        bufferReadPtr (c.sentOff c.clientFd bytes).writeBuffer =
      sentTo c.clientFd c.calls ++ bufferReadPtr c.writeBuffer := by
  change sentTo c.clientFd (c.calls ++ [_]) ++ bufferReadPtr (bufferTake c.writeBuffer _) = _
  rw [sentTo_append, bufferTake_readPtr, List.append_assoc]
  congr 1
  have taken := sentBytes_eq sent
  simp only [sentTo, List.flatMap_cons, List.flatMap_nil, Call.sent, if_true, List.append_nil]
  calc bytes ++ (bufferReadPtr c.writeBuffer).drop bytes.length
      = (bufferReadPtr c.writeBuffer).take bytes.length ++
          (bufferReadPtr c.writeBuffer).drop bytes.length := by rw [← taken]
    _ = bufferReadPtr c.writeBuffer := List.take_append_drop _ _

end

end SocksProxy
