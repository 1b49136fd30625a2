import SocksProxy.Boot
import SocksProxy.Lib.Crowd

/-!
# The server process

Every connection at once: the records in use by their addresses, and the one world
that all of them see. The selector calls the handler of an item for its record; a
resolver thread writes into a record and queues a job.
-/

namespace SocksProxy

open Lib

/-- The records in use, each with its machine. -/
abbrev Process := Crowd Nat (StateMachine × Socks5) World

def view (x : StateMachine × Socks5) (w : World) : Session := ⟨x.1, ⟨x.2, w⟩⟩

inductive Happening
  | event (e : Event) (fd : Int) (o : Outcome) (a : Accepted)
  | resolved (answer : List AddrInfo) (key : Int × Nat) (queued : Bool)

/-- What a session leaves: its record, unless it was released, and the world. -/
def Process.settle (p : Process) (key : Nat) (t : Session) : Process :=
  p.move key (if .released ∈ t.conn.calls then none else some (t.stm, t.conn.toSocks5)) t.conn.toWorld

/-- A close callback that was called for another record than the one that the event is for. -/
def Process.destroy (p : Process) (key : Nat) : Result Process :=
  match p.part key with
  | some x =>
    let destroy := if x.2.isSocks then SocksProxy.socks5Destroy else SocksProxy.mngDestroy
    .ok (p.settle key ⟨x.1, destroy key ⟨x.2, p.world⟩⟩)
  | none => .error .useAfterFree

def Process.sweep (p : Process) : Result Process :=
  p.world.strays.foldlM Process.destroy ⟨{ p.world with strays := [] }, p.part⟩

/-- `socksv5_passive_accept` or `mng_passive_accept`. -/
def Process.accept (isSocks : Bool) (a : Accepted) (p : Process) : Result Process := do
  let r ← passiveAccept isSocks a p.world
  match r.2 with
  | some s => .ok (p.move s.conn.self (some (s.stm, s.conn.toSocks5)) r.1)
  | none => .ok ⟨r.1, p.part⟩

/-- The passive sockets have a callback for reading only. `handle_iteration` asserts that there is
one; a job calls what there is. -/
def missing (e : Event) : Fault := if e = .write then .assertion else .nullPointer

/-- The callback of a handler, for the descriptor and the record of its key. -/
def Process.deliver (e : Event) (fd : Int) (handler : FdHandler) (data : Nat) (o : Outcome)
    (a : Accepted) (p : Process) : Result Process :=
  match handler with
  | .socksPassive => if e = .read then p.accept true a else .error (missing e)
  | .mngPassive => if e = .read then p.accept false a else .error (missing e)
  | .socks5 | .mng =>
    match p.part data with
    | some x => do
      let t ← SocksProxy.fire (.event e fd o) (view x p.world)
      (p.settle data t).sweep
    | none => .error .useAfterFree

/-- The callback of the item of a descriptor. -/
def Process.call (e : Event) (fd : Int) (o : Outcome) (a : Accepted) (p : Process) : Result Process :=
  let item := p.world.sel.fds fd
  p.deliver e fd item.handler item.data o a

/-- A job that is taken off the list. -/
def World.withoutJob (w : World) (fd : Int) : World :=
  { w with sel := { w.sel with resolutionJobs := w.sel.resolutionJobs.erase fd } }

/-- A resolver thread whose job could not be allocated. -/
def resolverFails (answer : List AddrInfo) (key : Int × Nat) (s : Session) : Session :=
  ⟨s.stm, { s.conn with
    originResolution := answer
    resolvers := s.conn.resolvers.erase key }⟩

def Process.fire (l : Happening) (p : Process) : Result Process :=
  match l with
  | .event e fd o a =>
    -- a job for a descriptor that nothing is registered for is dropped
    if e = .block ∧ (p.world.sel.fds fd).used = false then .ok ⟨p.world.withoutJob fd, p.part⟩
    else p.call e fd o a
  | .resolved answer key queued =>
    match p.part key.2 with
    | some x =>
      let s := view x p.world
      .ok (p.settle key.2 (if queued then resolverEnds answer key s else resolverFails answer key s))
    | none => .error .useAfterFree

/-- What the kernel and `malloc` promise of a connection that is accepted: a descriptor that is
not open, and an address that is not in use. -/
structure Process.Offers (p : Process) (a : Accepted) : Prop where
  fresh : ∀ (n : Nat) addr, a.client = some (n, addr) → p.world.isOpen n = false
  record : ∀ r, a.record = some r → r ≠ 0 ∧ p.part r = none ∧ r ∉ p.world.socksPool.list ∧
    r ∉ p.world.mngPool.list

/-- When the selector makes a call, and what the kernel promises of the answers. -/
def Process.Permits (p : Process) : Happening → Prop
  | .event e fd o a =>
    (match e with
      | .read => p.world.sel.Registered fd ∧ (p.world.sel.fds fd).interest.read = true
      | .write => p.world.sel.Registered fd ∧ (p.world.sel.fds fd).interest.write = true
      | .block => fd ∈ p.world.sel.resolutionJobs) ∧
    (∀ n : Nat, o.socket = some n → p.world.isOpen n = false) ∧ p.Offers a
  | .resolved _ key _ => key ∈ p.world.resolvers

/-- A step of the server. -/
def Process.Step (p : Process) (l : Happening) (p' : Process) : Prop :=
  p.Permits l ∧ p.fire l = .ok p'

/-! ## The server that `main` starts -/

/-- Registering the passive sockets, for which `data` is NULL. -/
def listen (passives : List (Nat × FdHandler)) (s : FdSelector) : Option FdSelector :=
  passives.foldlM
    (fun s p =>
      let r := selectorRegister s p.1 p.2 opRead 0 true
      if r.1 = .success then some r.2 else none) s

/-- `others` are the descriptors that are open besides the passive sockets. -/
def mainProcess (others socks mng : List Nat) (dissectors : UInt8) (heap : Heap)
    (users admins : UserTable) : Option Process :=
  (listen (socks.map (·, .socksPassive) ++ mng.map (·, .mngPassive))
    (selectorNew selectorInitialElements true).2).map fun sel =>
    { world :=
        { sel := sel
          isOpen := fun fd => (others ++ socks ++ mng).any fun n => decide (fd = n)
          authMethod := defaultAuthMethod
          passwordDissectors := dissectors
          heap := heap
          users := users
          admins := admins
          metrics := .zero
          socksPool := ⟨0, []⟩
          mngPool := ⟨0, []⟩
          resolvers := []
          strays := [] }
      part := fun _ => none }

/-! ## Runs by evaluation -/

def Process.permits (p : Process) : Happening → Bool
  | .event e fd o a =>
    (match e with
      | .read => decide (p.world.sel.Registered fd) && (p.world.sel.fds fd).interest.read
      | .write => decide (p.world.sel.Registered fd) && (p.world.sel.fds fd).interest.write
      | .block => decide (fd ∈ p.world.sel.resolutionJobs)) &&
    (o.socket.all fun n => !p.world.isOpen n) && (a.client.all fun c => !p.world.isOpen c.1) &&
    a.record.all fun r => decide (r ≠ 0 ∧ r ∉ p.world.socksPool.list ∧ r ∉ p.world.mngPool.list) &&
      (p.part r).isNone
  | .resolved _ key _ => decide (key ∈ p.world.resolvers)

theorem permits_sound {p : Process} {l : Happening} (h : p.permits l = true) : p.Permits l := by
  cases l with
  | event e fd o a =>
    simp only [Process.permits, Bool.and_eq_true] at h
    obtain ⟨⟨⟨ready, fresh⟩, client⟩, record⟩ := h
    refine ⟨?_, fun n opened => ?_, fun n addr accepted => ?_, fun r allocated => ?_⟩
    · cases e with
      | read => exact ⟨of_decide_eq_true (Bool.and_eq_true_iff.mp ready).1, (Bool.and_eq_true_iff.mp ready).2⟩
      | write => exact ⟨of_decide_eq_true (Bool.and_eq_true_iff.mp ready).1, (Bool.and_eq_true_iff.mp ready).2⟩
      | block => exact of_decide_eq_true ready
    · simpa [opened] using fresh
    · simpa [accepted] using client
    · simp only [allocated, Option.all_some, Bool.and_eq_true, decide_eq_true_eq,
        Option.isNone_iff_eq_none] at record
      exact ⟨record.1.1, record.2, record.1.2⟩
  | resolved answer key queued =>
    change key ∈ p.world.resolvers
    exact of_decide_eq_true h

/-- What happens in order, as long as it is permitted. -/
def Process.play (p : Process) : List Happening → Option Process
  | [] => some p
  | l :: rest =>
    if p.permits l then
      match p.fire l with
      | .ok p' => p'.play rest
      | .error _ => none
    else none

/-- A played run, whose steps have the labels that were played. -/
theorem played_run {p p' : Process} {hs : List Happening} (h : p.play hs = some p') :
    ∃ ls, Run Process.Step p ls p' ∧ ls.map (·.2) = hs := by
  induction hs generalizing p with
  | nil =>
    obtain rfl := Option.some.inj h
    exact ⟨[], .start, rfl⟩
  | cons l rest ih =>
    simp only [Process.play] at h
    split at h
    · rename_i permitted
      split at h
      · rename_i q fired
        obtain ⟨ls, run, labels⟩ := ih h
        exact ⟨(p, l) :: ls, Run.append (.single ⟨permits_sound permitted, fired⟩) run, by simp [labels]⟩
      · cases h
    · cases h

end SocksProxy
