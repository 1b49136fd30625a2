import SocksProxy.Events

/-!
# Which steps a session can take in the running server

`fire` says what a label does; here is when the selector delivers an event,
what the kernel promises, and what the other connections leave alone.
-/

namespace SocksProxy

open Lib

/-- The selector calls the session back for `e` on `fd`. -/
def Deliverable (e : Event) (fd : Int) (c : Conn) : Prop :=
  c.sel.Registered fd ∧ (c.sel.fds fd).data = c.self ∧
    match e with
    | .read => (c.sel.fds fd).interest.read = true
    | .write => (c.sel.fds fd).interest.write = true
    | .block => fd ∈ c.sel.resolutionJobs

/-- A slot in use that points to the record. -/
def Conn.Holds (c : Conn) (fd : Int) : Prop :=
  (c.sel.fds fd).used = true ∧ (c.sel.fds fd).data = c.self

/-- What the rest of the process may do between two events: anything that
leaves the record's registrations and descriptors alone. -/
structure Rely (c : Conn) (w : World) : Prop where
  span : w.sel.fdSize = c.sel.fdSize
  slots : ∀ fd, fd = c.clientFd ∨ fd = c.originFd ∨ c.Holds fd → w.sel.fds fd = c.sel.fds fd
  fresh : ∀ fd, (w.sel.fds fd).used = true → (w.sel.fds fd).data = c.self → c.Holds fd
  ownOpen : ∀ fd, fd = c.clientFd ∨ fd = c.originFd → w.isOpen fd = c.isOpen fd
  negative : w.isOpen (-1) = false
  method : w.authMethod = 0x00 ∨ w.authMethod = 0x02

/-- `socket` returns a descriptor that is not open. -/
def Allowed (l : Label) (s : Session) : Prop :=
  match l with
  | .event e fd o => Deliverable e fd s.conn ∧ ∀ n : Nat, o.socket = some n → s.conn.isOpen n = false
  | .resolved _ fd => (fd, s.conn.self) ∈ s.conn.resolvers
  | .env w => Rely s.conn w

/-- A step of the running server. -/
def Guarded (s : Session) (l : Label) (t : Session) : Prop := Allowed l s ∧ Step s l t

theorem guarded_run_step {s t : Session} {ls : List (Session × Label)} (run : Run Guarded s ls t) :
    Run Step s ls t := by
  induction run with
  | start => exact .start
  | next _ st ih => exact .next ih st.2

/-- A world in which a connection can be accepted: the selector of `selector_new(1024)`,
with whatever items other connections have left in it. -/
structure World.Ready (w : World) (record : Nat) : Prop where
  span : w.sel.fdSize = itemsMaxSize + 1
  negative : w.isOpen (-1) = false
  method : w.authMethod = 0x00 ∨ w.authMethod = 0x02
  fresh : ∀ fd, (w.sel.fds fd).used = true → (w.sel.fds fd).data ≠ record

/-- A session as its passive socket leaves it. -/
def JustAccepted (isSocks : Bool) (s : Session) : Prop :=
  ∃ a w w' fd addr, a.client = some (fd, addr) ∧ w.isOpen (fd : Int) = false ∧
    w.Ready s.conn.self ∧ passiveAccept isSocks a w = .ok (w', some s)

/-! ## Runs by evaluation -/

/-- The session that accepting leaves, if it does. -/
def accepted (isSocks : Bool) (a : Accepted) (w : World) : Option Session :=
  match passiveAccept isSocks a w with
  | .ok (_, s) => s
  | .error _ => none

theorem accepted_just {isSocks : Bool} {a : Accepted} {w : World} {s : Session} {fd : Nat}
    {addr : List UInt8} (h : accepted isSocks a w = some s) (client : a.client = some (fd, addr))
    (closed : w.isOpen (fd : Int) = false) (ready : w.Ready s.conn.self) :
    JustAccepted isSocks s := by
  unfold accepted at h
  split at h
  · rename_i w' s' eq
    subst h
    exact ⟨a, w, w', fd, addr, client, closed, ready, eq⟩
  · cases h

instance (e : Event) (fd : Int) (c : Conn) : Decidable (Deliverable e fd c) := by
  unfold Deliverable
  cases e <;> exact inferInstance

/-- The events of a list in order, each one only if it is delivered. -/
def play : Session → List (Event × Int × Outcome) → Option Session
  | s, [] => some s
  | s, (e, fd, o) :: rest =>
    if Deliverable e fd s.conn ∧ (o.socket.all fun n => !s.conn.isOpen n) = true then
      match fire (.event e fd o) s with
      | .ok t => play t rest
      | .error _ => none
    else none

theorem play_cons {s t : Session} {e : Event} {fd : Int} {o : Outcome}
    {rest : List (Event × Int × Outcome)} (h : play s ((e, fd, o) :: rest) = some t) :
    ∃ u, Guarded s (.event e fd o) u ∧ play u rest = some t := by
  simp only [play] at h
  split at h
  · rename_i allowed
    split at h
    · rename_i u fired
      refine ⟨u, ⟨⟨allowed.1, fun n at' => ?_⟩, fired⟩, h⟩
      simpa [at'] using allowed.2
    · cases h
  · cases h

theorem play_run {s t : Session} {es : List (Event × Int × Outcome)} (h : play s es = some t) :
    ∃ ls, Run Guarded s ls t ∧ ls.map (·.2) = es.map fun e => .event e.1 e.2.1 e.2.2 := by
  induction es generalizing s with
  | nil =>
    simp only [play, Option.some.injEq] at h
    subst h
    exact ⟨[], .start, rfl⟩
  | cons e rest ih =>
    obtain ⟨u, step, h⟩ := play_cons h
    obtain ⟨ls, run, labels⟩ := ih h
    exact ⟨(s, .event e.1 e.2.1 e.2.2) :: ls, Run.append (.single step) run, by simp [labels]⟩

/-- The events of a list, each with the session that it finds. -/
def history : Session → List (Event × Int × Outcome) → List (Session × Label)
  | _, [] => []
  | s, (e, fd, o) :: rest =>
    (s, .event e fd o) :: match fire (.event e fd o) s with
      | .ok t => history t rest
      | .error _ => []

theorem play_history {s t : Session} {es : List (Event × Int × Outcome)} (h : play s es = some t) :
    Run Guarded s (history s es) t := by
  induction es generalizing s with
  | nil =>
    obtain rfl : s = t := Option.some.inj h
    exact .start
  | cons e rest ih =>
    obtain ⟨u, step, h⟩ := play_cons h
    have fired : fire (.event e.1 e.2.1 e.2.2) s = .ok u := step.2
    have next := Run.append (.single step) (ih h)
    simp only [history, fired]
    exact next

/-- A test of the events of a list, each with the session that it finds. -/
def checks (P : Session → Event → Int → Outcome → Bool) : Session → List (Event × Int × Outcome) → Bool
  | _, [] => true
  | s, (e, fd, o) :: rest =>
    P s e fd o && match fire (.event e fd o) s with
      | .ok t => checks P t rest
      | .error _ => false

theorem play_checked {P : Session → Event → Int → Outcome → Bool} {s t : Session}
    {es : List (Event × Int × Outcome)} (h : play s es = some t) (checked : checks P s es = true) :
    ∃ ls, Run Guarded s ls t ∧ ls.map (·.2) = es.map (fun e => .event e.1 e.2.1 e.2.2) ∧
      ∀ p ∈ ls, ∃ e fd o, p.2 = .event e fd o ∧ P p.1 e fd o = true := by
  induction es generalizing s with
  | nil =>
    simp only [play, Option.some.injEq] at h
    subst h
    exact ⟨[], .start, rfl, fun _ member => nomatch member⟩
  | cons e rest ih =>
    obtain ⟨u, step, h⟩ := play_cons h
    have fired : fire (.event e.1 e.2.1 e.2.2) s = .ok u := step.2
    obtain ⟨here, checked⟩ := (Bool.and_eq_true _ _).mp checked
    rw [fired] at checked
    obtain ⟨ls, run, labels, good⟩ := ih h checked
    refine ⟨(s, .event e.1 e.2.1 e.2.2) :: ls, Run.append (.single step) run, by simp [labels],
      fun p member => ?_⟩
    rcases List.mem_cons.mp member with rfl | member
    · exact ⟨_, _, _, rfl, here⟩
    · exact good p member

/-- A run from an accepted connection, with a test of its events and of its end. -/
theorem accepted_played {isSocks : Bool} {a : Accepted} {w : World} {fd self : Nat}
    {addr : List UInt8} {P : Session → Event → Int → Outcome → Bool} {Q : Session → Bool}
    {es : List (Event × Int × Outcome)} (client : a.client = some (fd, addr))
    (closed : w.isOpen (fd : Int) = false) (ready : w.Ready self)
    (plays : (accepted isSocks a w).any (fun s =>
      decide (s.conn.self = self) && checks P s es && (play s es).any Q) = true) :
    ∃ s ls t, JustAccepted isSocks s ∧ Run Guarded s ls t ∧
      (∀ p ∈ ls, ∃ e fd o, p.2 = .event e fd o ∧ P p.1 e fd o = true) ∧ Q t = true := by
  obtain ⟨s, start, plays⟩ := (Option.any_eq_true _ _).mp plays
  simp only [Bool.and_eq_true, decide_eq_true_eq] at plays
  obtain ⟨⟨same, checked⟩, plays⟩ := plays
  obtain ⟨t, played, good⟩ := (Option.any_eq_true _ _).mp plays
  obtain ⟨ls, run, -, tested⟩ := play_checked played checked
  exact ⟨s, ls, t, accepted_just start client closed (same ▸ ready), run, tested, good⟩

/-- A run from an accepted connection, with a test of its steps and of its end. -/
theorem accepted_history {fd : Nat} {addr : List UInt8} (isSocks : Bool) (a : Accepted) (w : World)
    (self : Nat) (es : List (Event × Int × Outcome)) (Q : List (Session × Label) → Session → Bool)
    (client : a.client = some (fd, addr)) (closed : w.isOpen (fd : Int) = false) (ready : w.Ready self)
    (plays : (accepted isSocks a w).any (fun s =>
      decide (s.conn.self = self) && (play s es).any (Q (history s es))) = true) :
    ∃ s ls t, JustAccepted isSocks s ∧ Run Guarded s ls t ∧ Q ls t = true := by
  obtain ⟨s, start, plays⟩ := (Option.any_eq_true _ _).mp plays
  obtain ⟨same, plays⟩ := (Bool.and_eq_true _ _).mp plays
  obtain ⟨t, played, good⟩ := (Option.any_eq_true _ _).mp plays
  have address : s.conn.self = self := of_decide_eq_true same
  exact ⟨s, _, t, accepted_just start client closed (address ▸ ready), play_history played, good⟩

end SocksProxy
