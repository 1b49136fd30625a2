import SocksProxy.Deeds
import SocksProxy.Simulation

/-!
# What a request and its connection touch

The origin socket is the connection's own from `socket` on, so registering it, closing
it and taking it out of the selector stay within what is its own.
-/

namespace SocksProxy

open Lib

section
variable {own : Int → Prop} {free : Prop} {o : Outcome} {fd : Int} {c d e : Conn} {ret : Nat}
  {status st : SocksReplyStatus}

/-! ## REQUEST_READ and REQUEST_WRITE -/

theorem errorHandler_behaves (mine : own fd) (status : SocksReplyStatus) (c : Conn) :
    c.Behaves own fd free (errorHandler status fd c).2 :=
  (behaves_marshalled c status).trans (behaves_setInterest _ opWrite (.inr mine))

theorem requestInit_behaves (mine : own fd) (h : requestInit o fd c = .ok d) :
    c.Behaves own fd free d := by
  rcases requestInit_ok h with ⟨-, -, rfl⟩ | ⟨-, x, y, rfl, rfl | rfl⟩
  · exact behaves_client _ _
  · exact (errorHandler_behaves mine _ _).trans (behaves_client _ _)
  · exact ((errorHandler_behaves mine _ _).trans (errorHandler_behaves mine _ _)).trans
      (behaves_client _ _)

theorem requestFed_behaves (x : RequestSt) (bytes : List UInt8) (rb : Buffer) (p : RequestParser) :
    c.Behaves own fd free (requestFed fd c x bytes rb p) :=
  behaves_fields rfl rfl rfl rfl rfl (fun _ member => List.mem_singleton.mp member ▸ trivial) rfl rfl

theorem targeted_behaves (x : RequestSt) (domain : UInt8) (len : Nat) (addr : List UInt8) :
    c.Behaves own fd free (c.targeted x domain len addr) :=
  behaves_quiet rfl rfl rfl rfl rfl rfl rfl

/-- A started thread has the record and the descriptor of the event as its key. -/
theorem threadCreated_resolves (c : Conn) :
    c.Resolves own fd free
      ({ c with resolvers := c.resolvers ++ [(fd, c.self)] }.log .threadCreated) := by
  refine ⟨[.threadCreated], [], acts_record rfl rfl rfl rfl rfl (by simp) ?_ rfl rfl
    (touches_same rfl rfl rfl), ?_⟩
  · constructor <;> rfl
  · constructor
    · rfl
    · rfl
    · simp
    · simp
    · rfl

/-- A finished request starts a thread if and only if it waits for one. -/
theorem requestProcess_touches (mine : own fd) (x : RequestSt) (p : RequestParser) (c : Conn) :
    (requestProcess o fd x p c).1 ≠ SocksV5State.requestResolv.num ∧
        c.Behaves own fd free (requestProcess o fd x p c).2 ∨
      (requestProcess o fd x p c).1 = SocksV5State.requestResolv.num ∧
        (o.pthreadCreate = 0 ∧ c.Resolves own fd free (requestProcess o fd x p c).2 ∨
          o.pthreadCreate ≠ 0 ∧ c.Behaves own fd free (requestProcess o fd x p c).2) := by
  have fails : ∀ status y, SocksV5State.requestWrite.num ≠ SocksV5State.requestResolv.num ∧
      c.Behaves own fd free (errorHandler status fd { c with client := .request y }).2 :=
    fun status y => ⟨by decide, (behaves_client c (.request y)).trans (errorHandler_behaves mine status _)⟩
  unfold requestProcess
  split
  · exact .inl (fails _ _)
  · dsimp only
    split
    · exact .inl ⟨by simp [SocksV5State.num], targeted_behaves _ _ _ _⟩
    · split
      · exact .inl ⟨by simp [SocksV5State.num], targeted_behaves _ _ _ _⟩
      · split
        · split
          · exact .inl (fails _ _)
          · split
            · exact .inl (fails _ _)
            · have stored : c.Behaves own fd free { c with
                  client := .request { x with addrFamily := socksReqAddrtypeDomain } } :=
                behaves_client _ _
              refine .inr ⟨rfl, ?_⟩
              by_cases created : o.pthreadCreate = 0
              · rw [if_pos created]
                exact .inl ⟨created, (stored.resolves (threadCreated_resolves _)).behaves
                  (behaves_setInterest _ opNoop (.inr mine))⟩
              · rw [if_neg created]
                exact .inr ⟨created, stored.trans (behaves_setInterest _ opNoop (.inr mine))⟩
        · exact .inl (fails _ _)

theorem requestRead_touches (mine : own fd) (h : requestRead o fd c = .ok (ret, d)) :
    ret ≠ SocksV5State.requestResolv.num ∧ c.Behaves own fd free d ∨
      ret = SocksV5State.requestResolv.num ∧
        (o.pthreadCreate = 0 ∧ c.Resolves own fd free d ∨
          o.pthreadCreate ≠ 0 ∧ c.Behaves own fd free d) := by
  obtain ⟨x, -, ⟨-, rfl, rfl⟩ | ⟨-, got, -, -, rfl, rfl⟩ | ⟨-, bytes, p, rb, p', -, -, -, -, fed⟩⟩ :=
    requestRead_ok h
  · exact .inl ⟨by decide, .refl _⟩
  · exact .inl ⟨by decide, behaves_log _ trivial⟩
  · have stored : c.Behaves own fd free (requestFed fd c x bytes rb p') := requestFed_behaves _ _ _ _
    rcases fed with ⟨-, processed⟩ | ⟨-, rfl, rfl⟩
    · have touches := @requestProcess_touches own free o fd mine { x with parser := .live p' } p'
        (requestFed fd c x bytes rb p')
      rw [← processed] at touches
      rcases touches with ⟨elsewhere, behaves⟩ | ⟨resolv, ⟨created, resolves⟩ | ⟨failed, behaves⟩⟩
      · exact .inl ⟨elsewhere, stored.trans behaves⟩
      · exact .inr ⟨resolv, .inl ⟨created, stored.resolves resolves⟩⟩
      · exact .inr ⟨resolv, .inr ⟨failed, stored.trans behaves⟩⟩
    · exact .inl ⟨by decide, stored⟩

/-- The interest of the origin's descriptor, if there is one. -/
theorem behaves_originInterest (mine : c.Mine own) (i : FdInterest) :
    c.Behaves own fd free (c.setInterest c.originFd i) := by
  apply behaves_setInterest
  rcases mine.origin with closed | origin
  · rw [closed]
    exact .inl rfl
  · exact .inr origin

theorem requestWrite_behaves (mine : c.Mine own) (h : requestWrite o fd c = .ok (ret, d)) :
    c.Behaves own fd free d := by
  rcases requestWrite_ok h with ⟨-, -, rfl⟩ | ⟨bytes, -, ⟨-, -, rfl⟩ | ⟨-, conn, -, sent⟩⟩
  · exact behaves_log _ trivial
  · exact behaves_sentOff _ _ _
  · have off : ∀ i, c.Behaves own fd free ((c.sentOff fd bytes).setInterest c.clientFd i) :=
      fun i => (behaves_sentOff c fd bytes).trans (behaves_setInterest _ i (.inr mine.client))
    have both : ∀ i, c.Behaves own fd free
        (((c.sentOff fd bytes).setInterest c.clientFd i).setInterest c.originFd i) :=
      fun i => (off i).trans (behaves_originInterest (mine.behaves (off i)) i)
    rcases sent with ⟨-, -, rfl⟩ | ⟨-, -, rfl⟩
    · exact both opRead
    · split
      · exact both opNoop
      · exact off opNoop

theorem requestResolvDone_behaves (mine : own fd) (h : requestResolvDone fd c = .ok (ret, d)) :
    c.Behaves own fd free d := by
  unfold requestResolvDone at h
  split at h
  · obtain ⟨conn, -, h⟩ := bind_eq_ok.mp h
    obtain ⟨x, -, h⟩ := bind_eq_ok.mp h
    have eq := Except.ok.inj h
    have stored : c.Behaves own fd free { c with
        orig := .conn { conn with status := .generalSocksServerFailure }
        client := .request { x with status := .generalSocksServerFailure } } :=
      behaves_quiet rfl rfl rfl rfl rfl rfl rfl
    have answered := stored.trans (errorHandler_behaves mine .generalSocksServerFailure _)
    rw [eq] at answered
    exact answered
  · rename_i current rest _
    have eq := (Prod.mk.inj (Except.ok.inj h)).2
    obtain ⟨addr, domain, len, same, -⟩ := resolved_eq current rest c
    rw [← eq, same]
    exact behaves_quiet rfl rfl rfl rfl rfl rfl rfl

/-! ## The socket -/

theorem setConnStatus_behaves (h : c.setConnStatus status = .ok d) : c.Behaves own fd free d := by
  simp only [Conn.setConnStatus] at h
  obtain ⟨conn, -, h⟩ := bind_eq_ok.mp h
  obtain rfl := Except.ok.inj h
  exact behaves_orig _ _

theorem errorHandlerToClient_behaves (mine : c.Mine own) (status : SocksReplyStatus) :
    c.Behaves own fd free (errorHandlerToClient status c).2 := by
  have answered : c.Behaves own fd free ((c.marshalled status).setInterest c.clientFd opWrite) :=
    (behaves_marshalled c status).trans (behaves_setInterest _ opWrite (.inr mine.client))
  simp only [errorHandlerToClient]
  split
  · exact answered.trans (behaves_originInterest (mine.behaves answered) opNoop)
  · exact answered

theorem connectionFailed_behaves (mine : c.Mine own) (h : connectionFailed status c = .ok (st, d)) :
    c.Behaves own fd free d := by
  simp only [connectionFailed] at h
  obtain ⟨e, stored, h⟩ := bind_eq_ok.mp h
  obtain ⟨-, rfl⟩ := Prod.mk.inj (Except.ok.inj h)
  have behaves : c.Behaves own fd free e := setConnStatus_behaves stored
  exact behaves.trans (errorHandlerToClient_behaves (mine.behaves behaves) status)

theorem registerOrigin_behaves (mine : c.Mine own) (socks : c.isSocks = true) (i : FdInterest) :
    c.Behaves own fd free (c.registerOrigin o i).2 := by
  have handler : c.handler = .socks5 := by rw [Socks5.handler, socks, if_pos rfl]
  have full : itemsMaxSize < c.sel.fdSize := by rw [mine.span]; decide
  obtain ⟨status, fds, size, jobs⟩ := register_eq full c.originFd .socks5 i c.self o.realloc
  have inside : c.Behaves own fd free { c with
      sel := (selectorRegister c.sel c.originFd .socks5 i c.self o.realloc).2 } := by
    refine ⟨[], [], acts_sel size jobs ?_ ?_ (register_tidy mine.span · _ _ _ _ _), plain_nil⟩
    · intro f out
      rw [fds]
      split
      · rename_i taken
        apply Function.update_of_ne
        intro same
        rw [same] at out
        rcases mine.origin with closed | origin
        · rw [status, closed] at taken
          cases taken
        · exact out origin
      · rfl
    · intro f used
      rw [fds] at used ⊢
      split at used
      · rename_i taken
        rw [if_pos taken]
        by_cases same : f = c.originFd
        · rw [same, Function.update_self, handler]
          exact .inr rfl
        · rw [Function.update_of_ne same] at used ⊢
          exact .inl ⟨used, rfl⟩
      · rename_i refused
        rw [if_neg refused]
        exact .inl ⟨used, rfl⟩
  exact inside.trans (behaves_log _ trivial)

/-- The descriptor of the origin is closed and forgotten. -/
theorem closeOrigin_behaves (mine : c.Mine own) : c.Behaves own fd free c.closeOrigin := by
  have silent : ∀ call ∈ [Call.close c.originFd], call.Silent :=
    fun _ member => List.mem_singleton.mp member ▸ trivial
  have others : ∀ f, ¬ own f → c.closeOrigin.isOpen f = c.isOpen f := by
    intro f out
    change Function.update c.isOpen c.originFd false f = c.isOpen f
    by_cases same : f = c.originFd
    · rw [same, Function.update_self]
      rcases mine.origin with closed | origin
      · rw [closed]
        exact mine.negative.symm
      · exact absurd (same ▸ origin) out
    · exact Function.update_of_ne same ..
  have left : ∀ f, c.closeOrigin.isOpen f = true → c.isOpen f = true ∧ f ≠ c.originFd := by
    intro f there
    by_cases same : f = c.originFd
    · have gone : c.closeOrigin.isOpen f = false := by
        rw [same]
        exact Function.update_self ..
      exact nomatch gone.symm.trans there
    · exact ⟨(Function.update_of_ne same ..).symm.trans there, same⟩
  refine ⟨[.close c.originFd], [], ?_, plain_silent silent⟩
  exact ⟨rfl, rfl, rfl, fun _ => .inl rfl, rfl, rfl, rfl, fun _ _ => rfl,
    fun _ used => .inl ⟨used, rfl⟩, others,
    fun f there => .inl ⟨(left f there).1, fun origin => absurd origin (left f there).2⟩,
    rfl, rfl, rfl, rfl, (List.append_nil _).symm, rfl, marked_silent silent, id,
    .inr ⟨rfl, rfl, rfl⟩, id, touches_same rfl rfl rfl⟩

/-- What an item of the record gives back when it is not the last. -/
theorem unregister_behaves {f : Int} (mine : c.Mine own) (mineF : invalidFd f = true ∨ own f)
    (shared : c.sel.Registered f → c.references ≠ 1) :
    c.Behaves own fd free (c.unregister f).2 := by
  obtain ⟨-, fds, size, jobs, closed⟩ := unregister_eq handleClose c.sel c f
  by_cases registered : c.sel.Registered f
  · rw [if_pos registered] at fds closed
    have notLast := shared registered
    have inside : own f := by
      rcases mineF with invalid | mineF
      · exact absurd (invalid.symm.trans registered.1) (by decide)
      · exact mineF
    have data : (c.sel.fds f).data = c.self := congrArg Prod.snd (mine.owner f inside registered.2)
    have dropped : ∃ references, handleClose (c.sel.fds f) c = { c with references := references } := by
      unfold handleClose
      cases (c.sel.fds f).handler with
      | socks5 => exact ⟨c.references - 1, by simp [socks5Destroy, data, notLast]⟩
      | mng => exact ⟨c.references - 1, by simp [mngDestroy, data, notLast]⟩
      | socksPassive => exact ⟨c.references, rfl⟩
      | mngPassive => exact ⟨c.references, rfl⟩
    obtain ⟨references, dropped⟩ := dropped
    rw [dropped] at closed
    have counted : c.Behaves own fd free { c with references := references } :=
      behaves_quiet rfl rfl rfl rfl rfl rfl rfl
    have whole : (c.unregister f).2 = { c with
        references := references
        sel := (selectorUnregisterFd handleClose c.sel c f).2.1 } := by
      unfold Conn.unregister
      simp only
      rw [closed]
    rw [whole]
    apply counted.trans
    refine ⟨[], [], acts_sel (c := { c with references := references }) size jobs ?_ ?_
      fun tidy => unregister_tidy handleClose c tidy f,
      plain_nil⟩
    · intro g out
      rw [fds]
      apply Function.update_of_ne
      rintro rfl
      exact out inside
    · intro g used
      rw [fds] at used ⊢
      by_cases same : g = f
      · rw [same, Function.update_self] at used
        cases used
      · rw [Function.update_of_ne same] at used ⊢
        exact .inl ⟨used, rfl⟩
  · have same : (c.unregister f).2 = c := by
      unfold Conn.unregister
      rw [unregister_refused handleClose c registered]
    rw [same]
    exact .refl _

theorem behaves_isSocks (behaves : c.Behaves own fd free d) : d.isSocks = c.isSocks := by
  obtain ⟨more, marks, acts, -⟩ := behaves
  exact acts.isSocks

/-! ## REQUEST_CONNECTING -/

/-- `connect` is counted as an attempt. -/
theorem attempted_behaves (c : Conn) (result : Option Errno) :
    c.Behaves own fd free (c.attempted result) := by
  refine ⟨[.connect c.originFd c.originAddr c.originAddrLen result], [.attempt],
    acts_record rfl rfl rfl rfl rfl (by simp) ?_ rfl (by simp; rfl) (touches_same rfl rfl rfl), ?_⟩
  · constructor <;> rfl
  · constructor
    · rfl
    · rfl
    · simp
    · simp
    · rfl

theorem connection_behaves (mine : c.Mine own) (socks : c.isSocks = true) (mineFd : own fd)
    (h : connection o fd c = .ok (st, d)) : c.Behaves own fd free d := by
  have attempted : ∀ result, c.Behaves own fd free (c.attempted result) :=
    fun result => attempted_behaves c result
  simp only [connection] at h
  split at h
  · rename_i answer
    have tried := attempted (some .einprogress)
    rw [answer] at h
    split at h
    · exact tried.trans (connectionFailed_behaves (mine.behaves tried) h)
    · have watched := tried.trans (behaves_setInterest _ opNoop (.inr mineFd))
      have registered := watched.trans (registerOrigin_behaves (o := o) (mine.behaves watched) socks opWrite)
      split at h
      · obtain ⟨⟨r, e⟩, failed, h⟩ := bind_eq_ok.mp h
        obtain ⟨-, rfl⟩ := Prod.mk.inj (Except.ok.inj h)
        have all := registered.trans (connectionFailed_behaves (mine.behaves registered) failed)
        exact all.trans (closeOrigin_behaves (mine.behaves all))
      · obtain ⟨-, rfl⟩ := Prod.mk.inj (Except.ok.inj h)
        exact registered.trans (behaves_quiet rfl rfl rfl rfl rfl rfl rfl)
  · rename_i errno _ answer
    rw [answer] at h
    have tried := attempted (some errno)
    obtain ⟨x, -, h⟩ := bind_eq_ok.mp h
    have stored := tried.trans (behaves_client _ (.request { x with status := errnoToSocks errno }))
    exact stored.trans (connectionFailed_behaves (mine.behaves stored) h)
  · rename_i answer
    rw [answer] at h
    have tried := attempted none
    have counted := tried.trans (behaves_quiet (d := (c.attempted none).counted) rfl rfl rfl rfl rfl rfl rfl)
    split at h
    · exact counted.trans (connectionFailed_behaves (mine.behaves counted) h)
    · have watched := counted.trans (behaves_setInterest _ opRead (.inr mineFd))
      have registered := watched.trans (registerOrigin_behaves (o := o) (mine.behaves watched) socks opRead)
      split at h
      · exact registered.trans (connectionFailed_behaves (mine.behaves registered) h)
      · obtain ⟨-, rfl⟩ := Prod.mk.inj (Except.ok.inj h)
        exact registered

/-- The socket is the connection's own, and the last one was not open. -/
theorem withSocket_behaves {n : Nat} (mine : c.Mine own) (opened : own n) (bare : c.originFd = -1) :
    c.Behaves own fd free (c.withSocket n) := by
  have silent : ∀ call ∈ [Call.socket n], call.Silent :=
    fun _ member => List.mem_singleton.mp member ▸ trivial
  have others : ∀ f, ¬ own f → (c.withSocket n).isOpen f = c.isOpen f := by
    intro f out
    apply Function.update_of_ne
    rintro rfl
    exact out opened
  have fresh : ∀ f, (c.withSocket n).isOpen f = true →
      c.isOpen f = true ∧ (f = c.originFd → f = n) ∨ f = n := by
    intro f there
    by_cases same : f = n
    · exact .inr same
    · have before : c.isOpen f = true := (Function.update_of_ne same ..).symm.trans there
      refine .inl ⟨before, fun origin => ?_⟩
      rw [origin, bare, mine.negative] at before
      cases before
  refine ⟨[.socket n], [], ?_, plain_silent silent⟩
  exact ⟨rfl, rfl, rfl, fun _ => .inr opened, rfl, rfl, rfl, fun _ _ => rfl,
    fun _ used => .inl ⟨used, rfl⟩, others, fresh, rfl, rfl, rfl, rfl, (List.append_nil _).symm, rfl,
    marked_silent silent, id, .inr ⟨rfl, rfl, rfl⟩, id, touches_same rfl rfl rfl⟩

theorem connectingInit_behaves (mine : c.Mine own) (socks : c.isSocks = true) (mineFd : own fd)
    (bare : c.originFd = -1) (opened : ∀ n : Nat, o.socket = some n → own n) (h : connectingInit o fd c = .ok d) :
    c.Behaves own fd free d := by
  simp only [connectingInit] at h
  split at h
  · obtain ⟨⟨r, e⟩, failed, h⟩ := bind_eq_ok.mp h
    obtain rfl := Except.ok.inj h
    have none' : c.Behaves own fd free ({ c with
        orig := .conn ⟨c.clientFd, -1, .succeeded⟩, originFd := -1 }.log (.socket (-1))) :=
      behaves_fields rfl rfl rfl bare.symm rfl
        (fun _ member => List.mem_singleton.mp member ▸ trivial) rfl rfl
    exact none'.trans (connectionFailed_behaves (mine.behaves none') failed)
  · rename_i n socket
    have made : c.Behaves own fd free (c.withSocket n) :=
      withSocket_behaves mine (opened n socket) bare
    have mine' := mine.behaves made
    split at h
    · obtain ⟨⟨r, e⟩, ran, h⟩ := bind_eq_ok.mp h
      exact (made.trans (connection_behaves mine' socks mineFd ran)).trans (setConnStatus_behaves h)
    · obtain ⟨⟨r, e⟩, failed, h⟩ := bind_eq_ok.mp h
      obtain rfl := Except.ok.inj h
      exact made.trans (connectionFailed_behaves mine' failed)

theorem nextAddress_behaves {next : AddrInfo} {rest : List AddrInfo} (mine : c.Mine own)
    (socks : c.isSocks = true) (mineFd : own fd) (h : nextAddress o fd next rest c = .ok (ret, d)) :
    c.Behaves own fd free d := by
  simp only [nextAddress] at h
  obtain ⟨addr, moved, -⟩ := setOriginAddr_eq next rest c
  rw [moved] at h
  obtain ⟨⟨r, e⟩, ran, h⟩ := bind_eq_ok.mp h
  obtain ⟨-, rfl⟩ := Prod.mk.inj (Except.ok.inj h)
  have on : c.Behaves own fd free (c.movedOn (next :: rest) addr) :=
    behaves_quiet rfl rfl rfl rfl rfl rfl rfl
  exact on.trans (connection_behaves (mine.behaves on) socks mineFd ran)

theorem accessLog_behaves (c : Conn) (status : SocksReplyStatus) :
    c.Behaves own fd free (c.accessLog status) :=
  behaves_log _ trivial

theorem freeResolution_behaves (c : Conn) (x : RequestSt) :
    c.Behaves own fd free (c.freeResolution x) := by
  unfold Conn.freeResolution
  split
  · exact behaves_log _ trivial
  · exact .refl _

/-- A connection is counted when its `SO_ERROR` is found clear. -/
theorem counted_establishes (c : Conn) (f : Int) :
    c.Establishes own fd free ({ c.log (.getsockopt f (some none)) with
      metrics := countConnection c.metrics }.log .counted) := by
  refine ⟨[.getsockopt f (some none), .counted], [.connected],
    acts_record rfl rfl rfl rfl (List.append_assoc ..) (by simp) ?_ rfl (by simp; rfl)
      (touches_same rfl rfl rfl), ?_⟩
  · constructor <;> rfl
  · constructor
    · rfl
    · rfl
    · simp
    · simp
    · rfl

theorem establishedBy_establishes (c : Conn) (f : Int) (x : RequestSt) :
    c.Establishes own fd free (c.establishedBy f x) := by
  have logged : c.Establishes own fd free (({ c.log (.getsockopt f (some none)) with
      metrics := countConnection c.metrics }.log .counted).accessLog .succeeded) :=
    (counted_establishes c f).behaves (accessLog_behaves _ .succeeded)
  exact logged.behaves (freeResolution_behaves _ x)

/-- Only a connection that leaves REQUEST_CONNECTING was counted. -/
theorem connectingWrite_touches (mine : c.Mine own) (socks : c.isSocks = true) (mineFd : own fd)
    (client : ∀ conn, c.orig = .conn conn → own conn.clientFd)
    (shared : c.sel.Registered c.originFd → c.references ≠ 1)
    (h : connectingWrite o fd c = .ok (ret, d)) :
    c.Behaves own fd free d ∨
      ret ≠ SocksV5State.requestConnecting.num ∧ c.Establishes own fd free d := by
  simp only [connectingWrite] at h
  obtain ⟨conn, stored, h⟩ := bind_eq_ok.mp h
  have mineConn := client conn (conn_ok.mp stored)
  split at h
  · split at h
    · exact .inl (nextAddress_behaves mine socks mineFd h)
    · obtain ⟨-, rfl⟩ := Prod.mk.inj (Except.ok.inj h)
      have out : c.Behaves own fd free (c.unregister c.originFd).2 := by
        apply unregister_behaves mine _ shared
        rcases mine.origin with closed | origin
        · rw [closed]
          exact .inl rfl
        · exact .inr origin
      have closed := out.trans (closeOrigin_behaves (mine.behaves out))
      exact .inl (closed.trans (errorHandlerToClient_behaves (mine.behaves closed) _))
  · have asked : o.getsockopt ≠ some none →
        c.Behaves own fd free (c.log (.getsockopt fd o.getsockopt)) := fun unfound =>
      behaves_log _ unfound
    split at h
    · rename_i silent
      have asked := asked (by simp [silent])
      obtain ⟨e, failed, h⟩ := bind_eq_ok.mp h
      obtain ⟨-, rfl⟩ := Prod.mk.inj (Except.ok.inj h)
      have noted := (asked.trans (setConnStatus_behaves failed)).trans
        (accessLog_behaves _ .generalSocksServerFailure)
      exact .inl (noted.trans (errorHandlerToClient_behaves (mine.behaves noted) _))
    · rename_i clear
      obtain ⟨x, -, h⟩ := bind_eq_ok.mp h
      have established : c.Establishes own fd free (c.establishedBy fd x) :=
        establishedBy_establishes _ _ _
      have done := established.behaves
        (behaves_orig _ (.conn { conn with status := .succeeded, originFd := fd }))
      rw [clear] at h
      split at h
      · obtain ⟨rfl, rfl⟩ := Prod.mk.inj (Except.ok.inj h)
        exact .inr ⟨by decide, done⟩
      · rename_i wb _
        obtain ⟨rfl, rfl⟩ := Prod.mk.inj (Except.ok.inj h)
        have answered := done.behaves (behaves_writeBuffer _ wb)
        refine .inr ⟨?_, (answered.behaves (behaves_setInterest _ opWrite (.inr mineConn))).behaves
          (behaves_setInterest _ opNoop (.inr mineFd))⟩
        split <;> decide
    · rename_i errno answer
      have asked := asked (by simp [answer])
      obtain ⟨e, failed, h⟩ := bind_eq_ok.mp h
      have noted := asked.trans (setConnStatus_behaves failed)
      have mine' := mine.behaves noted
      split at h
      · exact .inl (noted.trans
          (nextAddress_behaves mine' ((behaves_isSocks noted).trans socks) mineFd h))
      · obtain ⟨-, rfl⟩ := Prod.mk.inj (Except.ok.inj h)
        have all := noted.trans (accessLog_behaves e (errnoToSocks errno))
        exact .inl (all.trans (errorHandlerToClient_behaves (mine.behaves all) _))
      · obtain ⟨x, -, h⟩ := bind_eq_ok.mp h
        obtain ⟨-, rfl⟩ := Prod.mk.inj (Except.ok.inj h)
        have all := (noted.trans (accessLog_behaves e (errnoToSocks errno))).trans
          (freeResolution_behaves _ x)
        exact .inl (all.trans (errorHandlerToClient_behaves (mine.behaves all) _))

end

end SocksProxy
