import SocksProxy.Attempts

/-!
# What moves without the connection

The steps that are no event of the connection, and the end of it: the first leave
a session in its place, the second releases a clean course.
-/

namespace SocksProxy

open Lib

/-! ## The rest of the process -/

/-- A change that the connection does not see, apart from the answer of its resolver. -/
structure Conn.Framed (c d : Conn) : Prop where
  record : ∃ answer, d.toSocks5 = { c.toSocks5 with originResolution := answer }
  footing : ∀ {socket reg}, c.Footing socket reg → d.Footing socket reg
  slots : ∀ fd, c.Holds fd → d.sel.fds fd = c.sel.fds fd
  fresh : ∀ fd, d.Holds fd → c.Holds fd

theorem framed_env {c : Conn} {w : World} (rely : Rely c w) :
    c.Framed { c with toWorld := w } :=
  ⟨⟨c.originResolution, rfl⟩, fun h => footing_env h rely,
    fun fd held => rely.slots fd (Or.inr (Or.inr held)), fun fd held => rely.fresh fd held.1 held.2⟩

/-- The same footing, in a record whose selector has other jobs. -/
theorem footing_jobs {c d : Conn} {socket : Int} {reg : Bool} (h : c.Footing socket reg)
    (record : d.toSocks5 = { c.toSocks5 with originResolution := d.originResolution })
    (size : d.sel.fdSize = c.sel.fdSize) (fds : d.sel.fds = c.sel.fds) (isOpen : d.isOpen = c.isOpen)
    (method : d.authMethod = c.authMethod) : d.Footing socket reg := by
  have same : c.Same d :=
    ⟨by rw [record], by rw [record], by rw [record], by rw [record], by rw [record],
      by rw [record], by rw [record], isOpen⟩
  have item : ∀ fd, c.Item fd → d.Item fd := by
    intro fd at'
    refine ⟨at'.1, ?_⟩
    unfold Conn.interestOf Socks5.handler
    rw [fds, same.isSocks, same.self]
    exact at'.2
  have holds : ∀ fd, d.Holds fd ↔ c.Holds fd := by
    intro fd
    unfold Conn.Holds
    rw [fds, same.self]
  constructor
  · exact size.trans h.span
  · rw [same.clientFd]
    exact item _ h.client
  · exact fun on => item _ (h.origin on)
  · intro fd held
    rw [same.clientFd]
    exact h.held fd ((holds fd).mp held)
  · rw [same.clientFd]
    exact h.apart
  · rw [same.originFd]
    exact h.originFd
  · rw [isOpen, same.clientFd]
    exact h.clientOpen
  · rw [isOpen, same.originFd]
    exact h.originOpen
  · rw [isOpen]
    exact h.negative
  · rw [method]
    exact h.method
  · rw [same.errorState, same.isSocks]
    exact h.errorState
  · rw [same.doneState, same.isSocks]
    exact h.doneState

theorem framed_resolved (answer : List AddrInfo) (key : Int × Nat) (s : Session) :
    s.conn.Framed (resolverEnds answer key s).conn :=
  ⟨⟨answer, rfl⟩, fun h => footing_jobs h rfl rfl rfl rfl rfl, fun _ _ => rfl, fun _ held => held⟩

theorem framed_takeJob (fd : Int) (s : Session) : s.conn.Framed (takeJob fd s).conn :=
  ⟨⟨s.conn.originResolution, rfl⟩, fun h => footing_jobs h rfl rfl rfl rfl rfl, fun _ _ => rfl,
    fun _ held => held⟩

section
variable {k : Course} {c d : Conn}

theorem interestOf_framed (f : c.Framed d) {fd : Int} (item : c.Item fd) :
    d.interestOf fd = c.interestOf fd := by
  unfold Conn.interestOf
  rw [f.slots fd item.holds]

theorem fits_framed (h : k.Fits c) (f : c.Framed d) : k.Fits d := by
  obtain ⟨answer, record⟩ := f.record
  constructor
  · rw [record]
    exact h.socks
  · exact f.footing h.footing
  · rw [record]
    exact h.originFd
  · exact h.socket
  · rw [record]
    exact h.references
  · rw [record]
    exact h.released
  · rw [record]
    exact h.left
  · rw [record]
    exact h.tried
  · rw [record]
    exact h.established
  · intro on closed
    rw [interestOf_framed f (h.footing.origin on)]
    exact h.stale on closed

theorem waits_framed (h : k.Waits c) (f : c.Framed d) : k.Waits d := by
  obtain ⟨answer, record⟩ := f.record
  exact ⟨by rw [record]; exact h.sent, by rw [record]; exact h.queue⟩

theorem tries_framed (h : k.Tries c) (f : c.Framed d) : k.Tries d := by
  obtain ⟨answer, record⟩ := f.record
  exact ⟨fits_framed h.fits f, waits_framed h.waits f, by rw [record]; exact h.request,
    by rw [record]; exact h.conn⟩

theorem watches_framed (h : k.Watches c) (fits : k.Fits c) (f : c.Framed d) : k.Watches d := by
  obtain ⟨answer, record⟩ := f.record
  have client : d.interestOf d.clientFd = c.interestOf c.clientFd := by
    rw [record]
    exact interestOf_framed f fits.footing.client
  have socket : k.registered = true → d.interestOf k.socket = c.interestOf k.socket :=
    fun on => interestOf_framed f (fits.footing.origin on)
  unfold Course.Watches at h ⊢
  rw [client]
  split at h
  · rw [socket h.2.2.1]
    exact h
  · rw [socket h.2.2.1]
    exact h
  · exact ⟨h.1, h.2.1, fun on => (socket on).trans (h.2.2 on)⟩
  · exact h

theorem writes_framed (h : k.Writes c) (f : c.Framed d) : k.Writes d := by
  obtain ⟨answer, record⟩ := f.record
  constructor
  · exact fits_framed h.fits f
  · exact h.paired
  · rw [record]
    exact (interestOf_framed f h.fits.footing.client).trans h.client
  · intro on
    exact (interestOf_framed f (h.fits.footing.origin on)).trans (h.origin on)
  · rw [record]
    exact h.status
  · rw [record]
    exact h.request
  · rw [record]
    exact h.bytes
  · rw [record]
    exact h.ahead

/-- An open descriptor of a paired record has an item of it. -/
theorem holds_of_open (h : k.Fits c) (paired : k.Paired) {side : Side}
    (isOpen : c.fdOf side ≠ -1) : c.Holds (c.fdOf side) := by
  cases side with
  | client => exact h.footing.client.holds
  | orig =>
    have here : c.originFd = k.socket := h.footing.originFd.resolve_right isOpen
    have on : k.registered = true := by
      refine paired ?_
      by_contra closed
      have originFd := h.originFd
      rw [Course.originFd, if_neg closed] at originFd
      exact isOpen originFd
    change c.Holds c.originFd
    rw [here]
    exact (h.footing.origin on).holds

theorem watched_framed {I : Side → FdInterest} (h : c.Watched I) (fits : k.Fits c)
    (paired : k.Paired) (f : c.Framed d) : d.Watched I := by
  obtain ⟨answer, record⟩ := f.record
  have fds : d.fdOf = c.fdOf := by
    funext side
    cases side <;> rw [record] <;> rfl
  have wants : d.wants = c.wants := by
    funext side i
    cases side <;> rw [record] <;> rfl
  intro side isOpen
  rw [fds] at isOpen ⊢
  obtain ⟨registered, interest⟩ := h side isOpen
  have kept := f.slots _ (holds_of_open fits paired isOpen)
  unfold FdSelector.Registered
  rw [kept, wants]
  exact ⟨registered, interest⟩

theorem ended_framed (h : k.Ended c) (f : c.Framed d) : k.Ended d := by
  obtain ⟨answer, record⟩ := f.record
  refine ⟨fun fd held => ?_, fun clean => ?_⟩
  · have before := f.fresh fd held
    unfold Conn.interestOf
    rw [f.slots fd before]
    exact h.1 fd before
  · obtain ⟨none', once⟩ := h.2 clean
    exact ⟨fun fd held => none' fd (f.fresh fd held), by rw [record]; exact once⟩

/-- A step that is no event leaves the session in its place. -/
theorem place_framed {s : Session} (place : k.Place s) (f : s.conn.Framed d) :
    k.Place ⟨s.stm, d⟩ := by
  obtain ⟨answer, record⟩ := f.record
  have socks : d.isSocks = s.conn.isSocks := by rw [record]
  have stays : ∀ {state}, s.In state → (⟨s.stm, d⟩ : Session).In state :=
    fun at' => ⟨socks.trans at'.1, at'.2⟩
  have client : ∀ {i}, k.Fits s.conn → s.conn.interestOf s.conn.clientFd = i →
      d.interestOf d.clientFd = i := by
    intro i fits eq
    rw [← eq, record]
    exact interestOf_framed f fits.footing.client
  unfold Course.Place at place ⊢
  split at place
  · obtain ⟨talks, methods, eq, fits, stands, limit, rewound⟩ := place
    refine ⟨?_, ?_, eq, fits_framed fits f, ?_, ?_, ?_⟩
    · rcases talks with ⟨at', interest⟩ | ⟨at', interest⟩
      · exact Or.inl ⟨at', client fits interest⟩
      · exact Or.inr ⟨at', client fits interest⟩
    · rw [record]
      exact methods
    · rw [record]
      exact stands
    · rw [record]
      exact limit
    · rw [record]
      exact rewound
  · obtain ⟨at', interest, eq, fits, waits, stands, request⟩ := place
    refine ⟨stays at', client fits interest, eq, fits_framed fits f, waits_framed waits f, ?_, ?_⟩
    · rw [record]
      exact stands
    · rw [record]
      exact request
  · obtain ⟨at', interest, eq, fits⟩ := place
    exact ⟨stays at', client fits interest, eq, fits_framed fits f⟩
  · obtain ⟨at', interest, eq, fits, waits, stands, request⟩ := place
    refine ⟨stays at', client fits interest, eq, fits_framed fits f, waits_framed waits f, ?_, ?_⟩
    · rw [record]
      exact stands
    · rw [record]
      exact request
  · obtain ⟨at', tries, watches⟩ := place
    exact ⟨stays at', tries_framed tries f, watches_framed watches tries.fits f⟩
  · obtain ⟨at', tries, watches⟩ := place
    exact ⟨stays at', tries_framed tries f, watches_framed watches tries.fits f⟩
  · obtain ⟨at', tries, watches⟩ := place
    exact ⟨stays at', tries_framed tries f, watches_framed watches tries.fits f⟩
  · obtain ⟨at', writes⟩ := place
    exact ⟨stays at', writes_framed writes f⟩
  · obtain ⟨at', fits, paired, I, copying, watched⟩ := place
    refine ⟨stays at', fits_framed fits f, paired, I, ?_, watched_framed watched fits paired f⟩
    rw [record]
    exact copying
  · obtain ⟨at', ended⟩ := place
    exact ⟨stays at', ended_framed ended f⟩
  · obtain ⟨at', ended⟩ := place
    exact ⟨stays at', ended_framed ended f⟩

/-! ## The end of the connection -/

/-- The reference of an item, dropped with it. -/
def Socks5.dropped (c : Socks5) (fd : Int) : Socks5 :=
  { c with
    references := if c.references = 1 then c.references else c.references - 1
    calls := c.calls ++ ((if c.references = 1 then [Call.released] else []) ++ [Call.close fd]) }

theorem doneFd_item {fd : Int} (item : c.Item fd) (socks : c.isSocks = true)
    (ran : doneFd fd c = .ok d) :
    d.toSocks5 = c.toSocks5.dropped fd ∧ (d.sel.fds fd).used = false ∧
      ∀ f, f ≠ fd → d.sel.fds f = c.sel.fds f := by
  have registered : c.sel.Registered fd := item.registered
  obtain ⟨status, fds, -, -, closed⟩ := unregister_eq handleClose c.sel c fd
  rw [if_pos registered] at status fds closed
  simp only [doneFd, valid_ne item.1, ne_eq, not_false_eq_true, if_true] at ran
  rw [if_pos (show (c.unregister fd).1 = .success from status), Except.ok.injEq] at ran
  subst ran
  have sel : ((c.unregister fd).2.closeFd fd).sel.fds = Function.update c.sel.fds fd itemInit := fds
  refine ⟨?_, ?_, fun f ne => ?_⟩
  · change { (selectorUnregisterFd handleClose c.sel c fd).2.2.toSocks5 with
      calls := (selectorUnregisterFd handleClose c.sel c fd).2.2.calls ++ [Call.close fd] } = _
    rw [closed, item.2]
    simp only [handleClose, Socks5.handler, socks, if_true, socks5Destroy, Socks5.dropped]
    by_cases last : c.references = 1
    · simp [last, Conn.log, socks]
    · simp [last]
  · rw [sel, Function.update_self]
    rfl
  · rw [sel, Function.update_of_ne ne]

/-- The end of a course: its items are gone, but for that of a socket that was given up. -/
theorem done_items (h : k.Fits c) (paired : k.Paired) (ran : socksv5Done c = .ok d) :
    (∀ fd, d.Holds fd → k.registered = true ∧ k.isOpen = false ∧ d.interestOf fd = opNoop) ∧
      (k.Clean → d.calls.count .released = 1) := by
  have count : c.calls.count .released = 0 := List.count_eq_zero.mpr h.released
  have references := h.references
  simp only [socksv5Done] at ran
  obtain ⟨e, first, second⟩ := bind_eq_ok.mp ran
  obtain ⟨record, gone, others⟩ := doneFd_item h.footing.client h.socks first
  have clientFd : e.clientFd = c.clientFd := by rw [record]; rfl
  have self : e.self = c.self := by rw [record]; rfl
  have held : ∀ fd, e.Holds fd → k.registered = true ∧ fd = k.socket := by
    intro fd holds
    have ne : fd ≠ c.clientFd := by
      rintro rfl
      exact absurd (gone.symm.trans holds.1) (by decide)
    have before : c.Holds fd := by
      unfold Conn.Holds at holds ⊢
      rw [others fd ne, self] at holds
      exact holds
    exact (h.footing.held fd before).resolve_left ne
  by_cases closed : c.originFd = -1
  · have notOpen : k.isOpen = false := by
      by_contra isOpen
      rw [Bool.not_eq_false] at isOpen
      have socket := h.socket isOpen
      have originFd := h.originFd
      simp only [Course.originFd, isOpen, if_true, closed] at originFd
      omega
    simp only [doneFd, closed, ne_eq, not_true_eq_false, if_false, Except.ok.injEq] at second
    subst second
    refine ⟨fun fd holds => ?_, fun clean => ?_⟩
    · obtain ⟨on, rfl⟩ := held fd holds
      refine ⟨on, notOpen, ?_⟩
      unfold Conn.interestOf
      rw [others _ h.footing.apart]
      exact h.stale on notOpen
    · have off : k.registered = false := by
        by_contra on
        rw [Bool.not_eq_false] at on
        exact absurd ((clean.2 on).symm.trans notOpen) (by decide)
      rw [clean.1, off] at references
      rw [record]
      simp [Socks5.dropped, references, count]
  · have here : c.originFd = k.socket := h.footing.originFd.resolve_right closed
    have apart : c.originFd ≠ c.clientFd := by
      rw [here]
      exact h.footing.apart
    have on : k.registered = true := by
      refine paired ?_
      by_contra notOpen
      have originFd := h.originFd
      rw [Course.originFd, if_neg notOpen] at originFd
      exact closed originFd
    have item : e.Item c.originFd := by
      have before := h.footing.origin on
      rw [← here] at before
      refine ⟨before.1, ?_⟩
      have handler : e.handler = c.handler := by rw [record]; rfl
      unfold Conn.interestOf
      rw [others _ apart, handler, self]
      exact before.2
    have socks : e.isSocks = true := by
      rw [record]
      exact h.socks
    obtain ⟨record', gone', others'⟩ := doneFd_item item socks second
    have self' : d.self = e.self := by rw [record']; rfl
    refine ⟨fun fd holds => ?_, fun clean => ?_⟩
    · exfalso
      by_cases eq : fd = c.originFd
      · rw [eq] at holds
        exact absurd (gone'.symm.trans holds.1) (by decide)
      · have before : e.Holds fd := by
          unfold Conn.Holds at holds ⊢
          rw [others' fd eq, self'] at holds
          exact holds
        exact eq ((held fd before).2.trans here.symm)
    · rw [clean.1, on] at references
      rw [record', record]
      simp [Socks5.dropped, references, count]

theorem done_ended (h : k.Fits c) (paired : k.Paired) (ran : socksv5Done c = .ok d) : k.Ended d := by
  obtain ⟨items, released⟩ := done_items h paired ran
  refine ⟨fun fd held => (items fd held).2.2, fun clean => ⟨fun fd held => ?_, released clean⟩⟩
  obtain ⟨on, notOpen, -⟩ := items fd held
  exact absurd ((clean.2 on).symm.trans notOpen) (by decide)

end

end SocksProxy
