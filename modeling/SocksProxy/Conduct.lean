import Mathlib.Algebra.BigOperators.Group.List.Basic
import Mathlib.Algebra.GroupWithZero.Nat
import SocksProxy.Frame
import SocksProxy.Blocks
import SocksProxy.Registrations

/-!
# What a handler touches

`c.Acts own fd free more marks d`: from `c` to `d` a connection makes the calls `more`,
and of what it shares with the others it changes only the slots and descriptors of
`own`, the release of its own record, the resolver threads that `more` starts and the
metrics by `marks`; the options of the server only if it is `free` to.
-/

namespace SocksProxy

open Lib

/-! ## The metrics -/

/-- A change of the metrics. -/
inductive Mark
  | attempt
  | auth
  | connected
  | read (n : Nat)
  | write (n : Nat)
  | ended
  deriving DecidableEq, Repr

def Mark.apply (m : Metrics) : Mark → Metrics
  | .attempt => { m with historicConnectionsAttempts := m.historicConnectionsAttempts + 1 }
  | .auth => { m with historicAuthAttempts := m.historicAuthAttempts + 1 }
  | .connected => countConnection m
  | .read n => countRead m n
  | .write n => countWrite m n
  | .ended => { m with concurrentConnections := m.concurrentConnections - 1 }

def Metrics.marked (m : Metrics) (marks : List Mark) : Metrics := marks.foldl Mark.apply m

def Mark.bytes : Mark → Nat
  | .read n | .write n => n
  | _ => 0

/-- The bytes that the marks count. -/
def bytesOf (marks : List Mark) : Nat := (marks.map Mark.bytes).sum

@[simp] theorem marked_nil (m : Metrics) : m.marked [] = m := rfl

theorem marked_append (m : Metrics) (xs ys : List Mark) :
    m.marked (xs ++ ys) = (m.marked xs).marked ys := List.foldl_append ..

theorem bytesOf_append (xs ys : List Mark) : bytesOf (xs ++ ys) = bytesOf xs + bytesOf ys := by
  unfold bytesOf
  rw [List.map_append, List.sum_append]

/-! ## The calls that are counted -/

def Call.isConnect : Call → Bool
  | .connect _ _ _ _ => true
  | _ => false

def Call.isCheck : Call → Bool
  | .checkCredentials _ _ _ | .checkMngCredentials _ _ _ => true
  | _ => false

/-- `SO_ERROR` was found clear: the connection is established. -/
def Call.isFound : Call → Bool
  | .getsockopt _ (some none) => true
  | _ => false

/-- A call that nothing counts and that neither starts a thread nor releases the record. -/
def Call.Silent : Call → Prop
  | .helloReadInit _ | .recv _ _ | .send _ _ | .shutdown _ _ | .socket _ | .register _ _
  | .close _ | .accessLog _ _ | .freeaddrinfo => True
  | .getsockopt _ error => error ≠ some none
  | _ => False

/-- The marks go with the calls that are counted. -/
structure Marked (more : List Call) (marks : List Mark) : Prop where
  connected : marks.count .connected = more.countP Call.isFound
  counted : more.count .counted = more.countP Call.isFound
  attempts : marks.count .attempt = more.countP Call.isConnect
  auths : marks.count .auth = more.countP Call.isCheck

theorem Marked.append {more more' : List Call} {marks marks' : List Mark} (h : Marked more marks)
    (k : Marked more' marks') : Marked (more ++ more') (marks ++ marks') where
  connected := by rw [List.count_append, List.countP_append, h.connected, k.connected]
  counted := by rw [List.count_append, List.countP_append, h.counted, k.counted]
  attempts := by rw [List.count_append, List.countP_append, h.attempts, k.attempts]
  auths := by rw [List.count_append, List.countP_append, h.auths, k.auths]

theorem marked_silent {more : List Call} (silent : ∀ call ∈ more, call.Silent) : Marked more [] := by
  have unfound : more.countP Call.isFound = 0 := by
    rw [List.countP_eq_zero]
    intro call member found
    have := silent call member
    unfold Call.isFound at found
    split at found
    · exact this rfl
    · cases found
  constructor
  · rw [List.count_nil, unfound]
  · rw [unfound, List.count_eq_zero]
    exact fun member => silent _ member
  · symm
    rw [List.count_nil, List.countP_eq_zero]
    intro call member
    have := silent call member
    cases call <;> first | exact Bool.false_ne_true | exact this.elim
  · symm
    rw [List.count_nil, List.countP_eq_zero]
    intro call member
    have := silent call member
    cases call <;> first | exact Bool.false_ne_true | exact this.elim

/-! ## The table of the selector -/

/-- The views of the table agree, and a slot that is free wants nothing. -/
structure FdSelector.Tidy (s : FdSelector) : Prop extends s.Kept where
  idle : ∀ fd, (s.fds fd).used = false → (s.fds fd).interest = opNoop

theorem setInterest_tidy {s : FdSelector} (tidy : s.Tidy) (fd : Int) (i : FdInterest) :
    (selectorSetInterest s fd i).2.Tidy := by
  refine ⟨(setInterest_effect tidy.toKept i).kept, fun f unused => ?_⟩
  rw [setInterest_fds] at unused ⊢
  split
  · rename_i registered
    rw [if_pos registered] at unused
    by_cases here : f = fd
    · subst here
      rw [Function.update_self] at unused
      exact absurd (registered.2.symm.trans unused) (by decide)
    · rw [Function.update_of_ne here] at unused ⊢
      exact tidy.idle f unused
  · rename_i refused
    rw [if_neg refused] at unused
    exact tidy.idle f unused

theorem register_tidy {s : FdSelector} (span : s.fdSize = itemsMaxSize + 1) (tidy : s.Tidy) (fd : Int)
    (handler : FdHandler) (i : FdInterest) (data : Nat) (alloc : Bool) :
    (selectorRegister s fd handler i data alloc).2.Tidy := by
  have full : itemsMaxSize < s.fdSize := by rw [span]; decide
  obtain ⟨status, fds, -, -⟩ := register_eq full fd handler i data alloc
  have inside : fd < s.fdSize ∨ invalidFd fd = true := by
    by_cases invalid : invalidFd fd = true
    · exact .inr invalid
    · simp only [invalidFd, decide_eq_true_eq, not_or, Int.not_lt, Int.not_le] at invalid
      omega
  refine ⟨?_, fun f unused => ?_⟩
  · rcases inside with inside | invalid
    · exact (register_effect tidy.toKept inside handler i data alloc).kept
    · have same : (selectorRegister s fd handler i data alloc).2 = s := by
        unfold selectorRegister
        rw [if_pos invalid]
      rw [same]
      exact tidy.toKept
  · rw [fds] at unused ⊢
    split
    · rename_i taken
      rw [if_pos taken] at unused
      by_cases here : f = fd
      · subst here
        rw [Function.update_self] at unused
        rw [status] at taken
        split at taken
        · cases taken
        · rename_i valid
          have minus : f = -1 := not_not.mp (of_decide_eq_false unused)
          rw [minus] at valid
          exact absurd rfl valid
      · rw [Function.update_of_ne here] at unused ⊢
        exact tidy.idle f unused
    · rename_i refused
      rw [if_neg refused] at unused
      exact tidy.idle f unused

theorem unregister_tidy {κ : Type} (close : Item → κ → κ) (k : κ) {s : FdSelector} (tidy : s.Tidy)
    (fd : Int) : (selectorUnregisterFd close s k fd).2.1.Tidy := by
  refine ⟨(unregister_effect close k tidy.toKept).kept, fun f unused => ?_⟩
  obtain ⟨-, fds, -⟩ := unregister_eq close s k fd
  rw [fds] at unused ⊢
  split
  · rename_i registered
    rw [if_pos registered] at unused
    by_cases here : f = fd
    · rw [here, Function.update_self]
      rfl
    · rw [Function.update_of_ne here] at unused ⊢
      exact tidy.idle f unused
  · rename_i refused
    rw [if_neg refused] at unused
    exact tidy.idle f unused

/-! ## The relation -/

/-- The pool of a kind of connection. -/
def World.pool (w : World) (isSocks : Bool) : Pool := if isSocks then w.socksPool else w.mngPool

/-- `n` releases of a record. -/
def Pool.puts (p : Pool) (data : Nat) : Nat → Pool
  | 0 => p
  | n + 1 => (p.put data).puts data n

theorem puts_add (p : Pool) (data m n : Nat) : p.puts data (m + n) = (p.puts data m).puts data n := by
  induction m generalizing p with
  | zero => rw [Nat.zero_add, Pool.puts]
  | succ m ih => rw [Nat.succ_add, Pool.puts, Pool.puts, ih]

/-- Whose callbacks an item has, and on which record. -/
def Item.owner (i : Item) : FdHandler × Nat := (i.handler, i.data)

structure Conn.Acts (own : Int → Prop) (fd : Int) (free : Prop) (c : Conn) (more : List Call)
    (marks : List Mark) (d : Conn) : Prop where
  self : d.self = c.self
  isSocks : d.isSocks = c.isSocks
  clientFd : d.clientFd = c.clientFd
  originFd : c.originFd = -1 ∨ own c.originFd → d.originFd = -1 ∨ own d.originFd
  calls : d.calls = c.calls ++ more
  span : d.sel.fdSize = c.sel.fdSize
  jobs : d.sel.resolutionJobs = c.sel.resolutionJobs
  slots : ∀ f, ¬ own f → d.sel.fds f = c.sel.fds f
  used : ∀ f, (d.sel.fds f).used = true →
    (c.sel.fds f).used = true ∧ (d.sel.fds f).owner = (c.sel.fds f).owner ∨
      (d.sel.fds f).owner = (c.handler, c.self)
  isOpen : ∀ f, ¬ own f → d.isOpen f = c.isOpen f
  opened : ∀ f, d.isOpen f = true →
    c.isOpen f = true ∧ (f = c.originFd → f = d.originFd) ∨ f = d.originFd
  pool : d.pool c.isSocks = (c.pool c.isSocks).puts c.self (more.count .released)
  otherPool : d.pool (!c.isSocks) = c.pool (!c.isSocks)
  admins : d.admins = c.admins
  strays : d.strays = c.strays
  resolvers : d.resolvers = c.resolvers ++ List.replicate (more.count .threadCreated) (fd, c.self)
  metrics : d.metrics = c.metrics.marked marks
  counts : Marked more marks
  method : c.authMethod = 0x00 ∨ c.authMethod = 0x02 → d.authMethod = 0x00 ∨ d.authMethod = 0x02
  settings : free ∨ d.users = c.users ∧ d.authMethod = c.authMethod ∧
    d.passwordDissectors = c.passwordDissectors
  tidy : c.sel.Tidy → d.sel.Tidy
  touches : c.Touches free d

section
variable {own : Int → Prop} {fd : Int} {free : Prop} {c d e : Conn} {more more' : List Call}
  {marks marks' : List Mark}

theorem Conn.Acts.trans (h : c.Acts own fd free more marks d)
    (k : d.Acts own fd free more' marks' e) :
    c.Acts own fd free (more ++ more') (marks ++ marks') e where
  self := k.self.trans h.self
  isSocks := k.isSocks.trans h.isSocks
  clientFd := k.clientFd.trans h.clientFd
  originFd := fun here => k.originFd (h.originFd here)
  calls := by rw [k.calls, h.calls, List.append_assoc]
  span := k.span.trans h.span
  jobs := k.jobs.trans h.jobs
  slots := fun f out => (k.slots f out).trans (h.slots f out)
  used := by
    have handler : d.handler = c.handler := by rw [Socks5.handler, Socks5.handler, h.isSocks]
    intro f used
    rcases k.used f used with ⟨before, owner⟩ | owner
    · rcases h.used f before with ⟨first, owner'⟩ | owner'
      · exact .inl ⟨first, owner.trans owner'⟩
      · exact .inr (owner.trans owner')
    · rw [handler, h.self] at owner
      exact .inr owner
  isOpen := fun f out => (k.isOpen f out).trans (h.isOpen f out)
  opened := by
    intro f isOpen
    rcases k.opened f isOpen with ⟨before, stays⟩ | here
    · rcases h.opened f before with ⟨first, stays'⟩ | here
      · exact .inl ⟨first, fun origin => stays (stays' origin)⟩
      · exact .inr (stays here)
    · exact .inr here
  pool := by
    have last := k.pool
    rw [h.isSocks, h.self] at last
    rw [last, h.pool, List.count_append, puts_add]
  otherPool := by
    have last := k.otherPool
    rw [h.isSocks] at last
    exact last.trans h.otherPool
  admins := k.admins.trans h.admins
  strays := k.strays.trans h.strays
  resolvers := by
    rw [k.resolvers, h.resolvers, h.self, List.count_append, ← List.replicate_append_replicate,
      List.append_assoc]
  metrics := by rw [k.metrics, h.metrics, marked_append]
  counts := h.counts.append k.counts
  method := fun good => k.method (h.method good)
  settings := by
    rcases h.settings with isFree | ⟨users, method, dissectors⟩
    · exact .inl isFree
    · rcases k.settings with isFree | ⟨users', method', dissectors'⟩
      · exact .inl isFree
      · exact .inr ⟨users'.trans users, method'.trans method, dissectors'.trans dissectors⟩
  tidy := fun tidy => k.tidy (h.tidy tidy)
  touches := h.touches.trans k.touches

/-- A change of the record and of the metrics, with calls that go with it. -/
theorem acts_record (self : d.self = c.self) (isSocks : d.isSocks = c.isSocks)
    (clientFd : d.clientFd = c.clientFd) (originFd : d.originFd = c.originFd)
    (calls : d.calls = c.calls ++ more) (kept : .released ∉ more) (counts : Marked more marks)
    (metrics : d.metrics = c.metrics.marked marks)
    (world : d.toWorld = { c.toWorld with
      metrics := d.metrics
      heap := d.heap
      resolvers := c.resolvers ++ List.replicate (more.count .threadCreated) (fd, c.self) })
    (touches : c.Touches free d) : c.Acts own fd free more marks d := by
  have sel : d.sel = c.sel := by rw [world]
  have pools : ∀ kind, d.pool kind = c.pool kind := by
    intro kind
    rw [world]
    rfl
  have isOpen : d.isOpen = c.isOpen := by rw [world]
  constructor
  · exact self
  · exact isSocks
  · exact clientFd
  · rw [originFd]
    exact id
  · exact calls
  · rw [sel]
  · rw [sel]
  · intro f _
    rw [sel]
  · intro f used
    rw [sel] at used ⊢
    exact .inl ⟨used, rfl⟩
  · intro f _
    rw [isOpen]
  · intro f there
    rw [isOpen] at there
    exact .inl ⟨there, fun origin => origin.trans originFd.symm⟩
  · rw [pools, List.count_eq_zero.mpr kept]
    rfl
  · exact pools _
  · rw [world]
  · rw [world]
  · rw [world]
  · exact metrics
  · exact counts
  · rw [world]
    exact id
  · rw [world]
    exact .inr ⟨rfl, rfl, rfl⟩
  · rw [sel]
    exact id
  · exact touches

/-- A change of the record alone, with silent calls. -/
theorem acts_fields (self : d.self = c.self) (isSocks : d.isSocks = c.isSocks)
    (clientFd : d.clientFd = c.clientFd) (originFd : d.originFd = c.originFd)
    (calls : d.calls = c.calls ++ more) (silent : ∀ call ∈ more, call.Silent)
    (parser : d.dissecParser = c.dissecParser) (world : d.toWorld = c.toWorld) :
    c.Acts own fd free more [] d := by
  have metrics : d.metrics = c.metrics := by rw [world]
  have heap : d.heap = c.heap := by rw [world]
  have users : d.users = c.users := by rw [world]
  have kept : .released ∉ more := fun member => silent _ member
  have alone : more.count .threadCreated = 0 :=
    List.count_eq_zero.mpr fun member => silent _ member
  apply acts_record self isSocks clientFd originFd calls kept (marked_silent silent) metrics
  · rw [alone, List.replicate_zero, List.append_nil, metrics, heap]
    exact world
  · exact touches_same heap users parser

/-- A change of the slots of `own`, and of the sets that go with them. -/
theorem acts_sel {s : FdSelector} (span : s.fdSize = c.sel.fdSize)
    (jobs : s.resolutionJobs = c.sel.resolutionJobs)
    (slots : ∀ f, ¬ own f → s.fds f = c.sel.fds f)
    (used : ∀ f, (s.fds f).used = true →
      (c.sel.fds f).used = true ∧ (s.fds f).owner = (c.sel.fds f).owner ∨
        (s.fds f).owner = (c.handler, c.self))
    (tidy : c.sel.Tidy → s.Tidy) : c.Acts own fd free [] [] { c with sel := s } :=
  ⟨rfl, rfl, rfl, id, (List.append_nil _).symm, span, jobs, slots, used, fun _ _ => rfl,
    fun _ isOpen => .inl ⟨isOpen, id⟩, rfl, rfl, rfl, rfl, (List.append_nil _).symm, rfl,
    marked_silent (List.forall_mem_nil _), id, .inr ⟨rfl, rfl, rfl⟩, tidy,
    touches_same rfl rfl rfl⟩

theorem acts_setInterest (c : Conn) {f : Int} (i : FdInterest)
    (mine : invalidFd f = true ∨ own f) : c.Acts own fd free [] [] (c.setInterest f i) := by
  have tuned := setInterest_retuned c.sel f i
  apply acts_sel tuned.size tuned.jobs
  · intro g out
    rcases mine with invalid | mine
    · rw [setInterest_fds, if_neg]
      intro registered
      exact absurd (invalid.symm.trans registered.1) (by decide)
    · apply tuned.outside
      rw [List.mem_singleton]
      intro same
      exact out (same ▸ mine)
  · intro g used
    rw [tuned.used] at used
    exact .inl ⟨used, Prod.ext (tuned.handler g) (tuned.data g)⟩
  · exact fun tidy => setInterest_tidy tidy f i

/-! ## Handlers that count nothing and end nothing -/

/-- So many threads are started and so many connections counted; the record is not released,
and no relay moved bytes or ended. -/
structure Plain (threads counted : Nat) (more : List Call) (marks : List Mark) : Prop where
  threads : more.count .threadCreated = threads
  counted : more.count .counted = counted
  kept : .released ∉ more
  going : .ended ∉ marks
  still : bytesOf marks = 0

theorem Plain.append {m n m' n' : Nat} (h : Plain m n more marks) (k : Plain m' n' more' marks') :
    Plain (m + m') (n + n') (more ++ more') (marks ++ marks') where
  threads := by rw [List.count_append, h.threads, k.threads]
  counted := by rw [List.count_append, h.counted, k.counted]
  kept := by
    rw [List.mem_append]
    exact fun member => member.elim h.kept k.kept
  going := by
    rw [List.mem_append]
    exact fun member => member.elim h.going k.going
  still := by rw [bytesOf_append, h.still, k.still]

def Conn.Behaves (own : Int → Prop) (fd : Int) (free : Prop) (c d : Conn) : Prop :=
  ∃ more marks, c.Acts own fd free more marks d ∧ Plain 0 0 more marks

/-- The same, with one resolver thread started. -/
def Conn.Resolves (own : Int → Prop) (fd : Int) (free : Prop) (c d : Conn) : Prop :=
  ∃ more marks, c.Acts own fd free more marks d ∧ Plain 1 0 more marks

/-- The same, with the connection counted once. -/
def Conn.Establishes (own : Int → Prop) (fd : Int) (free : Prop) (c d : Conn) : Prop :=
  ∃ more marks, c.Acts own fd free more marks d ∧ Plain 0 1 more marks

theorem Conn.Behaves.trans (h : c.Behaves own fd free d) (k : d.Behaves own fd free e) :
    c.Behaves own fd free e := by
  obtain ⟨more, marks, acts, plain⟩ := h
  obtain ⟨more', marks', acts', plain'⟩ := k
  exact ⟨_, _, acts.trans acts', plain.append plain'⟩

theorem Conn.Behaves.resolves (h : c.Behaves own fd free d) (k : d.Resolves own fd free e) :
    c.Resolves own fd free e := by
  obtain ⟨more, marks, acts, plain⟩ := h
  obtain ⟨more', marks', acts', plain'⟩ := k
  exact ⟨_, _, acts.trans acts', plain.append plain'⟩

theorem Conn.Resolves.behaves (h : c.Resolves own fd free d) (k : d.Behaves own fd free e) :
    c.Resolves own fd free e := by
  obtain ⟨more, marks, acts, plain⟩ := h
  obtain ⟨more', marks', acts', plain'⟩ := k
  exact ⟨_, _, acts.trans acts', plain.append plain'⟩

theorem Conn.Establishes.behaves (h : c.Establishes own fd free d) (k : d.Behaves own fd free e) :
    c.Establishes own fd free e := by
  obtain ⟨more, marks, acts, plain⟩ := h
  obtain ⟨more', marks', acts', plain'⟩ := k
  exact ⟨_, _, acts.trans acts', plain.append plain'⟩

theorem plain_silent (silent : ∀ call ∈ more, call.Silent) : Plain 0 0 more [] where
  threads := by
    rw [List.count_eq_zero]
    exact fun member => silent _ member
  counted := by
    rw [List.count_eq_zero]
    exact fun member => silent _ member
  kept := fun member => silent _ member
  going := List.not_mem_nil
  still := rfl

theorem behaves_fields (self : d.self = c.self) (isSocks : d.isSocks = c.isSocks)
    (clientFd : d.clientFd = c.clientFd) (originFd : d.originFd = c.originFd)
    (calls : d.calls = c.calls ++ more) (silent : ∀ call ∈ more, call.Silent)
    (parser : d.dissecParser = c.dissecParser) (world : d.toWorld = c.toWorld) :
    c.Behaves own fd free d :=
  ⟨more, [], acts_fields self isSocks clientFd originFd calls silent parser world,
    plain_silent silent⟩

theorem plain_nil : Plain 0 0 [] [] := plain_silent (List.forall_mem_nil _)

/-- A change of the record that makes no call. -/
theorem behaves_quiet (self : d.self = c.self) (isSocks : d.isSocks = c.isSocks)
    (clientFd : d.clientFd = c.clientFd) (originFd : d.originFd = c.originFd)
    (calls : d.calls = c.calls) (parser : d.dissecParser = c.dissecParser)
    (world : d.toWorld = c.toWorld) : c.Behaves own fd free d :=
  behaves_fields self isSocks clientFd originFd (calls.trans (List.append_nil _).symm)
    (List.forall_mem_nil _) parser world

theorem Conn.Behaves.refl (c : Conn) : c.Behaves own fd free c :=
  behaves_quiet rfl rfl rfl rfl rfl rfl rfl

theorem behaves_log (c : Conn) {call : Call} (silent : call.Silent) :
    c.Behaves own fd free (c.log call) :=
  behaves_fields rfl rfl rfl rfl rfl (fun _ member => List.mem_singleton.mp member ▸ silent) rfl rfl

theorem behaves_client (c : Conn) (x : ClientSt) : c.Behaves own fd free { c with client := x } :=
  behaves_quiet rfl rfl rfl rfl rfl rfl rfl

theorem behaves_orig (c : Conn) (x : OrigSt) : c.Behaves own fd free { c with orig := x } :=
  behaves_quiet rfl rfl rfl rfl rfl rfl rfl

theorem behaves_writeBuffer (c : Conn) (wb : Buffer) :
    c.Behaves own fd free { c with writeBuffer := wb } :=
  behaves_quiet rfl rfl rfl rfl rfl rfl rfl

theorem behaves_setInterest (c : Conn) {f : Int} (i : FdInterest)
    (mine : invalidFd f = true ∨ own f) : c.Behaves own fd free (c.setInterest f i) :=
  ⟨[], [], acts_setInterest c i mine, plain_nil⟩

theorem behaves_marshalled (c : Conn) (status : SocksReplyStatus) :
    c.Behaves own fd free (c.marshalled status) :=
  behaves_quiet rfl rfl rfl rfl rfl rfl rfl

theorem behaves_sentOff (c : Conn) (f : Int) (bytes : List UInt8) :
    c.Behaves own fd free (c.sentOff f bytes) :=
  behaves_fields rfl rfl rfl rfl rfl (fun _ member => by cases member <;> trivial) rfl rfl

/-! ## What is the connection's own -/

/-- The descriptors of the record are its own and so are their items, in a table that spans
every descriptor. -/
structure Conn.Mine (own : Int → Prop) (c : Conn) : Prop where
  client : own c.clientFd
  origin : c.originFd = -1 ∨ own c.originFd
  nought : ¬ own (-1)
  negative : c.isOpen (-1) = false
  span : c.sel.fdSize = itemsMaxSize + 1
  owner : ∀ f, own f → (c.sel.fds f).used = true → (c.sel.fds f).owner = (c.handler, c.self)

theorem Conn.Mine.acts (h : c.Mine own) (acts : c.Acts own fd free more marks d) : d.Mine own where
  client := acts.clientFd ▸ h.client
  origin := acts.originFd h.origin
  nought := h.nought
  negative := (acts.isOpen _ h.nought).trans h.negative
  span := acts.span.trans h.span
  owner := by
    intro f mine used
    have handler : d.handler = c.handler := by rw [Socks5.handler, Socks5.handler, acts.isSocks]
    rw [handler, acts.self]
    rcases acts.used f used with ⟨before, same⟩ | same
    · exact same.trans (h.owner f mine before)
    · exact same

theorem Conn.Mine.behaves (h : c.Mine own) (behaves : c.Behaves own fd free d) : d.Mine own := by
  obtain ⟨more, marks, acts, -⟩ := behaves
  exact h.acts acts

end

end SocksProxy
