import SocksProxy.Guard

/-!
# The world `main` enters its loop with

The selector of `selector_new(SELECTOR_INITIAL_ELEMENTS)` with the passive
sockets registered in it, and the globals at their initial values.
-/

namespace SocksProxy

open Lib

def selectorInitialElements : Nat := 1024

def defaultAuthMethod : UInt8 := 0x02

def defaultPasswordDissectorsMode : UInt8 := 0

/-- `socks` and `mng` are the passive sockets; `users` and `admins` what the
arguments and the credentials file left. -/
def mainWorld (socks mng : Nat) (heap : Heap) (users admins : UserTable) : World where
  sel :=
    let s := (selectorNew selectorInitialElements true).2
    let s := (selectorRegister s socks .socksPassive opRead 0 true).2
    (selectorRegister s mng .mngPassive opRead 0 true).2
  isOpen := fun fd => decide (fd = socks ∨ fd = mng)
  authMethod := defaultAuthMethod
  passwordDissectors := defaultPasswordDissectorsMode
  heap := heap
  users := users
  admins := admins
  metrics := .zero
  socksPool := ⟨0, []⟩
  mngPool := ⟨0, []⟩
  resolvers := []
  strays := []

theorem nextCapacity_initial : nextCapacity selectorInitialElements = itemsMaxSize + 1 := by
  decide

/-- Registering keeps a world ready: the new item is open and belongs to no record. -/
theorem selectorRegister_used {s : FdSelector} (span : itemsMaxSize < s.fdSize) {fd f : Int}
    {handler : FdHandler} {i : FdInterest} {data : Nat} {alloc : Bool}
    (used : ((selectorRegister s fd handler i data alloc).2.fds f).used = true) :
    (s.fds f).used = true ∧ (selectorRegister s fd handler i data alloc).2.fds f = s.fds f ∨
      f = fd ∧ ((selectorRegister s fd handler i data alloc).2.fds f).data = data := by
  have eq := (register_eq span fd handler i data alloc).2.1
  rw [eq] at used ⊢
  split
  · rename_i ok
    by_cases same : f = fd
    · subst same
      exact Or.inr ⟨rfl, by simp⟩
    · rw [if_pos ok] at used
      rw [Function.update_of_ne same] at used ⊢
      exact Or.inl ⟨used, rfl⟩
  · rename_i failed
    rw [if_neg failed] at used
    exact Or.inl ⟨used, rfl⟩

theorem mainWorld_ready {socks mng self : Nat} {heap : Heap} {users admins : UserTable}
    (address : self ≠ 0) : (mainWorld socks mng heap users admins).Ready self := by
  have span0 : itemsMaxSize < (selectorNew selectorInitialElements true).2.fdSize := by decide
  have empty : ∀ f, ((selectorNew selectorInitialElements true).2.fds f).used = false := by
    intro f
    change ((itemsInit (fun _ => itemInit) 0 (nextCapacity selectorInitialElements)) f).used = false
    unfold itemsInit
    split <;> rfl
  have first := register_eq span0 socks .socksPassive opRead 0 true
  have span1 : itemsMaxSize <
      (selectorRegister (selectorNew selectorInitialElements true).2 socks .socksPassive opRead 0
        true).2.fdSize := by
    rw [first.2.2.1]
    exact span0
  have second := register_eq span1 mng .mngPassive opRead 0 true
  have items : ∀ f, ((mainWorld socks mng heap users admins).sel.fds f).used = true →
      ((mainWorld socks mng heap users admins).sel.fds f).data = 0 := by
    intro f used
    rcases selectorRegister_used span1 used with ⟨used, eq⟩ | ⟨rfl, data⟩
    · rcases selectorRegister_used span0 used with ⟨used, -⟩ | ⟨rfl, data⟩
      · rw [empty f] at used
        cases used
      · exact eq ▸ data
    · exact data
  refine ⟨?_, ?_, Or.inr rfl, fun f used => ?_⟩
  · exact second.2.2.1.trans (first.2.2.1.trans nextCapacity_initial)
  · have apart : ¬ ((-1 : Int) = socks ∨ (-1 : Int) = mng) := by omega
    exact decide_eq_false apart
  · rw [items f used]
    exact address.symm

/-- The server after a management request disabled authentication. -/
def openWorld : World :=
  { mainWorld 3 4 .empty .empty .empty with authMethod := methodNoAuthenticationRequired }

theorem openWorld_ready {self : Nat} (address : self ≠ 0) : openWorld.Ready self := by
  have ready : (mainWorld 3 4 .empty .empty .empty).Ready self := mainWorld_ready address
  exact ⟨ready.span, ready.negative, Or.inl rfl, ready.fresh⟩

/-- The heap and the table that the option `-u u:p` leaves. -/
def oneUser : Heap × UserTable :=
  let (name, heap) := Heap.empty.strdup [117]
  let (pass, heap) := heap.strdup [112]
  (heap, ⟨Function.update UserTable.empty.slots 0 ⟨some name, some pass⟩, 1⟩)

/-- The server with one user, who may also manage it, and authentication. -/
def userWorld : World := mainWorld 3 4 oneUser.1 oneUser.2 oneUser.2

theorem userWorld_ready : userWorld.Ready 7 := mainWorld_ready (by decide)

/-- The first client: descriptor 5, with its record at address 7. -/
def firstAccept : Accepted := ⟨some (5, []), true, some 7, true⟩

/-- What the calls of an event that goes well return. -/
def Outcome.fine : Outcome where
  recv := .none
  send := some 2048
  malloc := fun _ => true
  mallocKey := true
  pthreadCreate := 0
  socket := .none
  setNio := true
  connect := some .einprogress
  realloc := true
  getsockopt := some .none

/-- The first SOCKS client of the open server after some events. -/
def firstClient (es : List (Event × Int × Outcome)) : Option Session :=
  (accepted true firstAccept openWorld).bind fun s => play s es

theorem firstClient_run {es : List (Event × Int × Outcome)} {t : Session}
    (h : firstClient es = some t) :
    ∃ s ls, JustAccepted true s ∧ Run Guarded s ls t ∧
      ls.map (·.2) = es.map fun e => .event e.1 e.2.1 e.2.2 := by
  obtain ⟨s, start, played⟩ := Option.bind_eq_some_iff.mp h
  obtain ⟨ls, run, labels⟩ := play_run played
  have self : s.conn.self = 7 := by
    have eq : (accepted true firstAccept openWorld).map (·.conn.self) = some 7 := by decide +kernel
    rw [start] at eq
    exact Option.some.inj eq
  refine ⟨s, ls, accepted_just start rfl (by decide) (openWorld_ready ?_), run, labels⟩
  rw [self]
  decide

theorem firstClient_step {es : List (Event × Int × Outcome)} {e : Event × Int × Outcome}
    {t u : Session} (h : firstClient es = some t) (last : play t [e] = some u) :
    ∃ s ls, JustAccepted true s ∧ Run Guarded s ls t ∧
      ls.map (·.2) = (es.map fun e => .event e.1 e.2.1 e.2.2) ∧
      Guarded t (.event e.1 e.2.1 e.2.2) u := by
  obtain ⟨s, ls, start, run, labels⟩ := firstClient_run h
  obtain ⟨v, step, rest⟩ := play_cons last
  obtain rfl : v = u := Option.some.inj rest
  exact ⟨s, ls, start, run, labels, step⟩

/-- A `recv` of `bytes` on the client's descriptor. -/
def received (bytes : List UInt8) : Event × Int × Outcome :=
  (.read, 5, { Outcome.fine with recv := some bytes })

/-- The same when the event also opens the origin socket, descriptor 6. -/
def receivedOpening (bytes : List UInt8) : Event × Int × Outcome :=
  (.read, 5, { Outcome.fine with recv := some bytes, socket := some 6 })

/-- A CONNECT request to 127.0.0.1, port 80. -/
def connectRequest : List UInt8 := [0x05, 0x01, 0x00, 0x01, 127, 0, 0, 1, 0, 80]

/-- A CONNECT request to the domain "a", port 80. -/
def domainRequest : List UInt8 := [0x05, 0x01, 0x00, 0x03, 1, 97, 0, 80]

/-- The username/password message of that user. -/
def userMessage : List UInt8 := [0x01, 1, 117, 1, 112]

/-- The greeting of a client that offers username/password, and its answer. -/
def userGreeting : List (Event × Int × Outcome) := [received [0x05, 0x01, 0x02], (.write, 5, .fine)]

/-- The login of that user at the management port. -/
def adminLogin : List (Event × Int × Outcome) :=
  [received [0x01, 0x01, 0x02], (.write, 5, .fine), received userMessage, (.write, 5, .fine)]

/-- The greeting of a client without authentication, and its answer. -/
def greeting : List (Event × Int × Outcome) := [received [0x05, 0x01, 0x00], (.write, 5, .fine)]

/-- The first client of the open server asks for a connection, and its relay starts. -/
def opensRelay (more : List UInt8) : List (Event × Int × Outcome) :=
  greeting ++ [receivedOpening (connectRequest ++ more), (.write, 6, .fine), (.write, 5, .fine)]

end SocksProxy
