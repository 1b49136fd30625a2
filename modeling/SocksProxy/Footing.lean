import SocksProxy.Guard

/-!
# What the selector and the record hold of each other

A connection in progress has an item for its client and, at times, one for its
origin socket. `Conn.Footing` is what holds of them whatever the handlers do
with interests; each change a handler makes to them has its lemma here.
-/

namespace SocksProxy

open Lib

/-- The handler that the record's registrations carry. -/
def Socks5.handler (c : Socks5) : FdHandler := if c.isSocks then .socks5 else .mng

def Conn.interestOf (c : Conn) (fd : Int) : FdInterest := (c.sel.fds fd).interest

/-- An item of the record for `fd`, whatever its interest. -/
def Conn.Item (c : Conn) (fd : Int) : Prop :=
  invalidFd fd = false ∧ c.sel.fds fd = ⟨fd, c.interestOf fd, c.handler, c.self⟩

/-- The items of a record are the client's and, if `registered`, that of `socket`. -/
structure Conn.Footing (c : Conn) (socket : Int) (registered : Bool) : Prop where
  span : c.sel.fdSize = itemsMaxSize + 1
  client : c.Item c.clientFd
  origin : registered = true → c.Item socket
  held : ∀ fd, c.Holds fd → fd = c.clientFd ∨ registered = true ∧ fd = socket
  apart : socket ≠ c.clientFd
  originFd : c.originFd = socket ∨ c.originFd = -1
  clientOpen : c.isOpen c.clientFd = true
  originOpen : c.originFd ≠ -1 → c.isOpen c.originFd = true
  negative : c.isOpen (-1) = false
  method : c.authMethod = 0x00 ∨ c.authMethod = 0x02
  errorState : c.errorState = if c.isSocks then SocksV5State.error.num else MngState.error.num
  doneState : c.doneState = if c.isSocks then SocksV5State.done.num else MngState.done.num

section
variable {c d : Conn} {socket fd : Int} {reg : Bool} {i : FdInterest}

theorem valid_ne {fd : Int} (h : invalidFd fd = false) : fd ≠ -1 := by
  rintro rfl
  exact absurd h (by decide)

theorem Conn.Item.used (h : c.Item fd) : (c.sel.fds fd).used = true := by
  rw [h.2]
  exact decide_eq_true (valid_ne h.1)

theorem Conn.Item.holds (h : c.Item fd) : c.Holds fd := ⟨h.used, by rw [h.2]⟩

theorem Conn.Item.registered (h : c.Item fd) : c.sel.Registered fd := ⟨h.1, h.used⟩

/-- An event is delivered on the client's descriptor or on the registered socket. -/
theorem footing_delivered (h : c.Footing socket reg) {e : Event}
    (delivered : Deliverable e fd c) :
    fd = c.clientFd ∨ reg = true ∧ fd = socket :=
  h.held fd ⟨delivered.1.2, delivered.2.1⟩

/-- Whatever keeps the identity of the record and the slots, interests apart. -/
theorem footing_retuned (fds : List Int) (h : c.Footing socket reg) (same : c.Same d)
    (tuned : c.sel.Retuned fds d.sel) (method : d.authMethod = 0x00 ∨ d.authMethod = 0x02) :
    d.Footing socket reg := by
  have handler : d.handler = c.handler := by
    unfold Socks5.handler
    rw [same.isSocks]
  have item : ∀ {fd}, c.Item fd → d.Item fd := by
    intro fd at'
    refine ⟨at'.1, ?_⟩
    obtain ⟨i, eq⟩ := tuned.slot fd
    unfold Conn.interestOf
    rw [eq, at'.2, handler, same.self]
  have holds : ∀ fd, d.Holds fd ↔ c.Holds fd := by
    intro fd
    unfold Conn.Holds
    rw [tuned.used, tuned.data, same.self]
  refine ⟨tuned.size.trans h.span, ?_, fun reg => item (h.origin reg), fun fd at' => ?_,
    ?_, ?_, ?_, fun isOpen => ?_, ?_, method, ?_, ?_⟩
  · rw [same.clientFd]
    exact item h.client
  · rw [same.clientFd]
    exact h.held fd ((holds fd).mp at')
  · rw [same.clientFd]
    exact h.apart
  · rw [same.originFd]
    exact h.originFd
  · rw [same.isOpen, same.clientFd]
    exact h.clientOpen
  · rw [same.originFd] at isOpen ⊢
    rw [same.isOpen]
    exact h.originOpen isOpen
  · rw [same.isOpen]
    exact h.negative
  · rw [same.errorState, same.isSocks]
    exact h.errorState
  · rw [same.doneState, same.isSocks]
    exact h.doneState

/-- A change of the record that neither the selector nor the kernel sees. -/
theorem footing_same (h : c.Footing socket reg) (same : c.Same d) (sel : d.sel = c.sel)
    (method : d.authMethod = c.authMethod) : d.Footing socket reg :=
  footing_retuned [] h same (by rw [sel]; exact .refl _ _) (by rw [method]; exact h.method)

theorem setInterest_same (c : Conn) (fd : Int) (i : FdInterest) : c.Same (c.setInterest fd i) :=
  ⟨rfl, rfl, rfl, rfl, rfl, rfl, rfl, rfl⟩

/-! ## Interests -/

theorem interestOf_setInterest (at' : c.sel.Registered fd) :
    (c.setInterest fd i).interestOf fd = i := by
  simp [Conn.interestOf, Conn.setInterest, setInterest_fds, at']

theorem interestOf_setInterest_ne {f : Int} (ne : f ≠ fd) :
    (c.setInterest fd i).interestOf f = c.interestOf f := by
  simp only [Conn.interestOf, Conn.setInterest, setInterest_fds]
  split <;> simp [ne]

theorem interestStatus_of_registered (at' : c.sel.Registered fd) :
    c.interestStatus fd i = .success := by
  simp [Conn.interestStatus, selectorStatus, setInterest_status, at']

/-! ## The steps that are not handlers -/

theorem footing_env {w : World} (h : c.Footing socket reg) (rely : Rely c w) :
    ({ c with toWorld := w } : Conn).Footing socket reg := by
  have item : ∀ {fd}, c.Item fd → ({ c with toWorld := w } : Conn).Item fd := by
    intro fd at'
    have kept : w.sel.fds fd = c.sel.fds fd := rely.slots fd (Or.inr (Or.inr at'.holds))
    refine ⟨at'.1, ?_⟩
    unfold Conn.interestOf
    rw [kept]
    exact at'.2
  refine ⟨rely.span.trans h.span, item h.client, fun on => item (h.origin on), fun fd at' => ?_,
    h.apart, h.originFd, ?_, fun isOpen => ?_, rely.negative, rely.method, h.errorState, h.doneState⟩
  · exact h.held fd (rely.fresh fd at'.1 at'.2)
  · rw [rely.ownOpen c.clientFd (Or.inl rfl)]
    exact h.clientOpen
  · rw [rely.ownOpen c.originFd (Or.inr rfl)]
    exact h.originOpen isOpen

/-- Only what belongs to other connections, or to none, changes. -/
theorem footing_rely {w : World} (h : c.Footing socket reg) (sel : w.sel = c.sel)
    (isOpen : w.isOpen = c.isOpen) (method : w.authMethod = c.authMethod) : Rely c w := by
  constructor
  · rw [sel]
  · intro fd _
    rw [sel]
  · intro fd used data
    rw [sel] at used data
    exact ⟨used, data⟩
  · intro fd _
    rw [isOpen]
  · rw [isOpen]
    exact h.negative
  · rw [method]
    exact h.method

/-! ## The calls of connecting.c -/

/-- `socket` gave a number that was not open. -/
theorem footing_opened {n : Nat} (h : c.Footing socket false) (fresh : c.isOpen n = false)
    (same : d.toSocks5 = { c.toSocks5 with originFd := n, calls := d.calls, orig := d.orig })
    (world : d.toWorld = { c.toWorld with isOpen := Function.update c.isOpen n true }) :
    d.Footing n false := by
  have sel : d.sel = c.sel := by rw [world]
  have opens : ∀ fd, fd ≠ (n : Int) → d.isOpen fd = c.isOpen fd := by
    intro fd ne
    rw [world]
    exact Function.update_of_ne ne _ _
  have self : d.self = c.self := by rw [same]
  have clientFd : d.clientFd = c.clientFd := by rw [same]
  have originFd : d.originFd = n := by rw [same]
  have isSocks : d.isSocks = c.isSocks := by rw [same]
  have apart : c.clientFd ≠ n := by
    intro eq
    have := h.clientOpen
    rw [eq, fresh] at this
    cases this
  refine ⟨by rw [sel]; exact h.span, ?_, (fun on => by cases on), fun fd at' => ?_, ?_,
    Or.inl originFd, ?_, fun _ => ?_, ?_, ?_, ?_, ?_⟩
  · unfold Conn.Item Conn.interestOf Socks5.handler
    rw [clientFd, sel, self, isSocks]
    exact h.client
  · unfold Conn.Holds at at'
    rw [sel, self] at at'
    rw [clientFd]
    rcases h.held fd at' with eq | ⟨off, -⟩
    · exact Or.inl eq
    · cases off
  · rw [clientFd]
    exact apart.symm
  · rw [clientFd, opens _ apart]
    exact h.clientOpen
  · rw [originFd, world]
    exact Function.update_self _ _ _
  · rw [opens _ (by omega)]
    exact h.negative
  · rw [world]
    exact h.method
  · rw [same]
    exact h.errorState
  · rw [same]
    exact h.doneState

/-- `selector_register` takes the descriptor: it is below 1024 and has no item, not even one
that another connection left behind. -/
def FdSelector.Takes (s : FdSelector) (fd : Int) : Prop :=
  invalidFd fd = false ∧ (s.fds fd).used = false

instance (s : FdSelector) (fd : Int) : Decidable (s.Takes fd) := inferInstanceAs (Decidable (_ ∧ _))

/-- `selector_register` takes the origin socket. -/
def Conn.Registrable (c : Conn) : Prop := c.sel.Takes c.originFd

instance (c : Conn) : Decidable c.Registrable := inferInstanceAs (Decidable (c.sel.Takes c.originFd))

theorem registrable_socket (h : c.Footing socket reg) (at' : c.Registrable) :
    c.originFd = socket ∧ reg = false := by
  have eq : c.originFd = socket := h.originFd.resolve_right (valid_ne at'.1)
  refine ⟨eq, ?_⟩
  by_contra on
  rw [Bool.not_eq_false] at on
  have used := (h.origin on).used
  rw [← eq, at'.2] at used
  cases used

theorem registerOrigin_status (h : c.Footing socket reg) (o : Outcome) :
    (c.registerOrigin o i).1 = .success ↔ c.Registrable := by
  have full : itemsMaxSize < c.sel.fdSize := by rw [h.span]; decide
  have status := (register_eq full c.originFd .socks5 i c.self o.realloc).1
  change (selectorRegister c.sel c.originFd .socks5 i c.self o.realloc).1 = _ ↔ _
  unfold Conn.Registrable FdSelector.Takes
  rw [status]
  split
  · simp [*]
  · split <;> simp [*]

theorem registerOrigin_refused (h : c.Footing socket reg) (o : Outcome) (refused : ¬ c.Registrable) :
    ∃ sel, (c.registerOrigin o i).2 =
        { c with sel := sel }.log (.register c.originFd (c.registerOrigin o i).1) ∧
      c.sel.Retuned [] sel := by
  have full : itemsMaxSize < c.sel.fdSize := by rw [h.span]; decide
  obtain ⟨-, fds, size, jobs⟩ := register_eq full c.originFd .socks5 i c.self o.realloc
  have failed := mt (registerOrigin_status (i := i) h o).mp refused
  have failed' : (selectorRegister c.sel c.originFd .socks5 i c.self o.realloc).1 ≠ .success := failed
  rw [if_neg failed'] at fds
  refine ⟨_, rfl, size, jobs, fun fd => ⟨(c.sel.fds fd).interest, by rw [fds]⟩,
    fun fd _ => by rw [fds]⟩

theorem registerOrigin_taken (h : c.Footing socket reg) (socks : c.isSocks = true) (o : Outcome)
    (taken : c.Registrable) :
    (c.registerOrigin o i).2.Footing socket true ∧
      (c.registerOrigin o i).2.interestOf socket = i ∧
      (c.registerOrigin o i).2.interestOf c.clientFd = c.interestOf c.clientFd ∧
      (c.registerOrigin o i).2.toSocks5 =
        { c.toSocks5 with calls := c.calls ++ [.register c.originFd .success] } := by
  have full : itemsMaxSize < c.sel.fdSize := by rw [h.span]; decide
  obtain ⟨-, fds, size, -⟩ := register_eq full c.originFd .socks5 i c.self o.realloc
  have success := (registerOrigin_status (i := i) h o).mpr taken
  have success' : (selectorRegister c.sel c.originFd .socks5 i c.self o.realloc).1 = .success :=
    success
  rw [if_pos success'] at fds
  obtain ⟨eq, rfl⟩ := registrable_socket h taken
  have own : (c.registerOrigin o i).2.sel.fds socket = ⟨socket, i, .socks5, c.self⟩ := by
    rw [← eq]
    change (selectorRegister c.sel c.originFd .socks5 i c.self o.realloc).2.fds c.originFd = _
    rw [fds, Function.update_self]
  have others : ∀ fd, fd ≠ socket → (c.registerOrigin o i).2.sel.fds fd = c.sel.fds fd := by
    intro fd ne
    change (selectorRegister c.sel c.originFd .socks5 i c.self o.realloc).2.fds fd = _
    rw [fds, eq, Function.update_of_ne ne]
  have client : (c.registerOrigin o i).2.interestOf c.clientFd = c.interestOf c.clientFd := by
    unfold Conn.interestOf
    rw [others _ h.apart.symm]
  refine ⟨⟨size.trans h.span, ⟨h.client.1, ?_⟩, fun _ => ⟨eq ▸ taken.1, ?_⟩, fun fd at' => ?_,
    h.apart, h.originFd, h.clientOpen, h.originOpen, h.negative, h.method, h.errorState,
    h.doneState⟩, ?_, client, ?_⟩
  · change (c.registerOrigin o i).2.sel.fds c.clientFd =
      ⟨c.clientFd, (c.registerOrigin o i).2.interestOf c.clientFd, c.handler, c.self⟩
    rw [client, others _ h.apart.symm]
    exact h.client.2
  · unfold Conn.interestOf
    rw [own]
    change (⟨socket, i, .socks5, c.self⟩ : Item) = ⟨socket, i, c.handler, c.self⟩
    simp [Socks5.handler, socks]
  · by_cases hit : fd = socket
    · exact Or.inr ⟨rfl, hit⟩
    · refine Or.inl ?_
      have before : c.Holds fd := by
        unfold Conn.Holds
        rw [← others fd hit]
        exact at'
      exact (h.held fd before).resolve_right fun on => nomatch on.1
  · unfold Conn.interestOf
    rw [own]
  · rw [← success]
    rfl

/-- `close(*fd); *fd = -1`. -/
def Conn.closeOrigin (c : Conn) : Conn := { c.closeFd c.originFd with originFd := -1 }

theorem footing_closeOrigin (h : c.Footing socket reg) : c.closeOrigin.Footing socket reg := by
  have apart : c.clientFd ≠ c.originFd := by
    rcases h.originFd with eq | eq
    · rw [eq]
      exact h.apart.symm
    · rw [eq]
      exact valid_ne h.client.1
  have opens : ∀ fd, fd ≠ c.originFd → c.closeOrigin.isOpen fd = c.isOpen fd :=
    fun fd ne => Function.update_of_ne ne _ _
  refine ⟨h.span, h.client, h.origin, h.held, h.apart, Or.inr rfl, ?_,
    fun isOpen => absurd rfl isOpen, ?_, h.method, h.errorState, h.doneState⟩
  · rw [show c.closeOrigin.clientFd = c.clientFd from rfl, opens _ apart]
    exact h.clientOpen
  · by_cases eq : (-1 : Int) = c.originFd
    · change Function.update c.isOpen c.originFd false (-1) = false
      rw [eq, Function.update_self]
    · rw [opens _ eq]
      exact h.negative

theorem unregister_absent {fd : Int} (absent : ¬ c.sel.Registered fd) : (c.unregister fd).2 = c := by
  unfold Conn.unregister
  rw [unregister_refused handleClose c absent]

theorem handleClose_foreign {item : Item} (foreign : item.data ≠ c.self) :
    ∃ strays, handleClose item c = { c with strays := strays } := by
  unfold handleClose
  cases item.handler with
  | socks5 => exact ⟨_, by simp only [socks5Destroy, foreign, if_false]; rfl⟩
  | mng => exact ⟨_, by simp only [mngDestroy, foreign, if_false]; rfl⟩
  | socksPassive | mngPassive => exact ⟨c.strays, rfl⟩

/-- The socket's number may have an item that another connection left: it is taken out
with that connection's reference. -/
theorem unregister_foreign (h : c.Footing socket false) (isOpen : c.originFd ≠ -1) :
    (c.unregister c.originFd).2.Footing socket false ∧
      (c.unregister c.originFd).2.toSocks5 = c.toSocks5 := by
  by_cases at' : c.sel.Registered c.originFd
  · have eq : c.originFd = socket := h.originFd.resolve_right isOpen
    have unheld : ¬ c.Holds c.originFd := fun held =>
      (h.held _ held).elim (fun client => h.apart (eq.symm.trans client)) (fun on => nomatch on.1)
    obtain ⟨strays, closes⟩ := handleClose_foreign fun data => unheld ⟨at'.2, data⟩
    obtain ⟨-, fds, size, -, closed⟩ := unregister_eq handleClose c.sel c c.originFd
    rw [if_pos at'] at fds closed
    rw [closes] at closed
    have whole : (c.unregister c.originFd).2 = { c with
        strays := strays
        sel := (selectorUnregisterFd handleClose c.sel c c.originFd).2.1 } := by
      unfold Conn.unregister
      simp only
      rw [closed]
    rw [whole]
    have client : (selectorUnregisterFd handleClose c.sel c c.originFd).2.1.fds c.clientFd =
        c.sel.fds c.clientFd := by
      rw [fds, eq, Function.update_of_ne h.apart.symm]
    refine ⟨⟨size.trans h.span, ⟨h.client.1, ?_⟩, (fun on => nomatch on), fun fd held => ?_, h.apart,
      h.originFd, h.clientOpen, h.originOpen, h.negative, h.method, h.errorState, h.doneState⟩, rfl⟩
    · unfold Conn.interestOf
      simp only [client]
      exact h.client.2
    · unfold Conn.Holds at held
      simp only [fds] at held
      by_cases same : fd = c.originFd
      · rw [same, Function.update_self] at held
        exact nomatch held.1
      · rw [Function.update_of_ne same] at held
        exact h.held fd held
  · rw [unregister_absent at']
    exact ⟨h, rfl⟩

/-- The callback of the origin's item only drops a reference. -/
theorem unregister_origin (h : c.Footing socket true) (socks : c.isSocks = true)
    (isOpen : c.originFd ≠ -1) (shared : c.references ≠ 1) :
    (c.unregister c.originFd).2.Footing socket false ∧
      (c.unregister c.originFd).2.interestOf c.clientFd = c.interestOf c.clientFd ∧
      (c.unregister c.originFd).2.toSocks5 = { c.toSocks5 with references := c.references - 1 } := by
  have eq : c.originFd = socket := h.originFd.resolve_right isOpen
  have item := h.origin rfl
  have at' : c.sel.Registered c.originFd := by rw [eq]; exact item.registered
  obtain ⟨-, fds, size, -, closed⟩ := unregister_eq handleClose c.sel c c.originFd
  rw [if_pos at'] at fds closed
  have dropped : handleClose (c.sel.fds c.originFd) c = { c with references := c.references - 1 } := by
    rw [eq, item.2]
    simp [handleClose, Socks5.handler, socks, socks5Destroy, shared, eq]
  rw [dropped] at closed
  have whole : (c.unregister c.originFd).2 = { c with
      references := c.references - 1
      sel := (selectorUnregisterFd handleClose c.sel c c.originFd).2.1 } := by
    unfold Conn.unregister
    simp only
    rw [closed]
  rw [whole]
  have others : ∀ fd, fd ≠ socket →
      (selectorUnregisterFd handleClose c.sel c c.originFd).2.1.fds fd = c.sel.fds fd := by
    intro fd ne
    rw [fds, eq, Function.update_of_ne ne]
  have unused : ((selectorUnregisterFd handleClose c.sel c c.originFd).2.1.fds socket).used = false := by
    rw [fds, eq, Function.update_self]
    rfl
  have client : (selectorUnregisterFd handleClose c.sel c c.originFd).2.1.fds c.clientFd =
      c.sel.fds c.clientFd := others _ h.apart.symm
  have held : ∀ fd, ((selectorUnregisterFd handleClose c.sel c c.originFd).2.1.fds fd).used = true →
      fd ≠ socket := by
    rintro fd used rfl
    rw [unused] at used
    cases used
  refine ⟨⟨size.trans h.span, ⟨h.client.1, ?_⟩, (fun on => by cases on), fun fd at' => ?_,
    h.apart, h.originFd, h.clientOpen, h.originOpen, h.negative, h.method, h.errorState,
    h.doneState⟩, ?_, rfl⟩
  · unfold Conn.interestOf
    simp only [client]
    exact h.client.2
  · have ne := held fd at'.1
    have before : c.Holds fd := by
      unfold Conn.Holds
      rw [← others fd ne]
      exact at'
    exact Or.inl ((h.held fd before).resolve_right fun on => ne on.2)
  · unfold Conn.interestOf
    simp only [client]

end

/-! ## The start -/

/-- A registration that was taken, in a table that spans every descriptor. -/
theorem register_taken {s : FdSelector} (span : s.fdSize = itemsMaxSize + 1) {fd : Int}
    {handler : FdHandler} {i : FdInterest} {data : Nat} {alloc : Bool}
    (taken : (selectorRegister s fd handler i data alloc).1 = .success) :
    invalidFd fd = false ∧ (s.fds fd).used = false ∧
      (selectorRegister s fd handler i data alloc).2.fdSize = itemsMaxSize + 1 ∧
      (selectorRegister s fd handler i data alloc).2.fds =
        Function.update s.fds fd ⟨fd, i, handler, data⟩ := by
  have full : itemsMaxSize < s.fdSize := by rw [span]; decide
  obtain ⟨status, fds, size, -⟩ := register_eq full fd handler i data alloc
  rw [if_pos taken] at fds
  rw [status] at taken
  split at taken
  · cases taken
  · rename_i valid
    split at taken
    · cases taken
    · rename_i unused
      exact ⟨by simpa using valid, by simpa using unused, size.trans span, fds⟩

/-- A new record in a world where its descriptor was opened and registered. -/
theorem new_footing {isSocks : Bool} {self fd : Nat} {addr : List UInt8} {w v : World} {alloc : Bool}
    (ready : w.Ready self) (sel : v.sel = w.sel) (isOpen : v.isOpen = Function.update w.isOpen fd true)
    (method : v.authMethod = w.authMethod)
    (taken : (selectorRegister v.sel fd (if isSocks then .socks5 else .mng) opRead self alloc).1 =
      .success) :
    let c : Conn := ⟨newRecord isSocks self fd addr, { v with
      sel := (selectorRegister v.sel fd (if isSocks then .socks5 else .mng) opRead self alloc).2 }⟩
    c.Footing (-1) false ∧ c.interestOf fd = opRead := by
  intro c
  obtain ⟨valid, unused, size, fds⟩ := register_taken (by rw [sel]; exact ready.span) taken
  have own : c.sel.fds fd = ⟨fd, opRead, if isSocks then .socks5 else .mng, self⟩ := by
    rw [show c.sel.fds = _ from fds, Function.update_self]
  have others : ∀ f : Int, f ≠ fd → c.sel.fds f = w.sel.fds f := by
    intro f ne
    rw [show c.sel.fds = _ from fds, Function.update_of_ne ne, sel]
  have item : c.Item fd := ⟨valid, own.trans (by simp only [Conn.interestOf, own]; rfl)⟩
  have opens : ∀ f : Int, f ≠ fd → c.isOpen f = w.isOpen f := by
    intro f ne
    rw [show c.isOpen = _ from isOpen, Function.update_of_ne ne]
  have opened : c.isOpen fd = true := by
    rw [show c.isOpen = _ from isOpen, Function.update_self]
  refine ⟨⟨size, item, (fun on => nomatch on), fun f at' => Or.inl ?_,
    valid_ne valid |>.symm, Or.inr rfl, opened, fun isOpen => absurd rfl isOpen, ?_, ?_, rfl, rfl⟩, ?_⟩
  · by_contra ne
    have at'' := at'
    unfold Conn.Holds at at''
    rw [others f ne] at at''
    exact ready.fresh f at''.1 at''.2
  · rw [opens _ (by omega)]
    exact ready.negative
  · rw [show c.authMethod = v.authMethod from rfl, method]
    exact ready.method
  · unfold Conn.interestOf
    rw [own]

/-- An accepted connection has the one item, watched for reading. -/
theorem accepted_footing {isSocks : Bool} {s : Session} (h : JustAccepted isSocks s) :
    s.conn.Footing (-1) false ∧ s.conn.interestOf s.conn.clientFd = opRead ∧
      s.stm = { newStm isSocks with current := none } ∧
      ∃ self clientFd clientAddr, s.conn.toSocks5 = newRecord isSocks self clientFd clientAddr := by
  obtain ⟨a, w, w', fd, addr, client, fresh, ready, accepted⟩ := h
  simp only [passiveAccept, client] at accepted
  split at accepted
  · split at accepted
    · simp at accepted
    · rename_i self pool taken
      obtain ⟨stm, started, accepted⟩ := bind_eq_ok.mp accepted
      have stm_eq : stm = { newStm isSocks with current := none } := by
        cases isSocks <;> exact (Except.ok.inj started).symm
      cases isSocks with
      | true =>
        simp only [if_true] at accepted
        split at accepted
        · rename_i registered
          simp only [Except.ok.injEq, Prod.mk.injEq, Option.some.injEq] at accepted
          obtain ⟨-, rfl⟩ := accepted
          obtain ⟨footing, interest⟩ :=
            @new_footing true self fd addr w
              { w with isOpen := Function.update w.isOpen fd true, socksPool := pool } a.realloc
              ready rfl rfl rfl registered
          exact ⟨footing, interest, stm_eq, self, fd, addr, rfl⟩
        · simp at accepted
      | false =>
        simp only [Bool.false_eq_true, if_false] at accepted
        split at accepted
        · rename_i registered
          simp only [Except.ok.injEq, Prod.mk.injEq, Option.some.injEq] at accepted
          obtain ⟨-, rfl⟩ := accepted
          obtain ⟨footing, interest⟩ :=
            @new_footing false self fd addr w
              { w with isOpen := Function.update w.isOpen fd true, mngPool := pool } a.realloc
              ready rfl rfl rfl registered
          exact ⟨footing, interest, stm_eq, self, fd, addr, rfl⟩
        · simp at accepted
  · simp at accepted

end SocksProxy
