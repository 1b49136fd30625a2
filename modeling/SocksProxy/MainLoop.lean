import SocksProxy.Polling

/-!
# The main loop

`selector_select` scans what `pselect` left ready and then the resolution jobs, and `main`
calls it until it fails. What the loop does is a run of the server process: whatever a
callback does to the table, the key that was filled before it is right for the next.
-/

namespace SocksProxy

open Lib

/-! ## selector_select -/

/-- What the callbacks get from the system, and the resolver threads that end in between. Both
may depend on all that happened so far. -/
structure Kernel where
  answers : List Happening → Process → Event → Int → Outcome × Accepted
  ends : List Happening → Process → List (List AddrInfo × (Int × Nat) × Bool)

/-- What happened in order, and the process that it left. -/
abbrev Serving := List Happening × Process

/-- A resolver thread ends, if it runs. -/
def endThread (s : Serving) (thread : List AddrInfo × (Int × Nat) × Bool) : Result Serving :=
  let l := .resolved thread.1 thread.2.1 thread.2.2
  if s.2.world.resolvers.contains thread.2.1 then do
    let p ← s.2.fire l
    .ok (s.1 ++ [l], p)
  else .ok s

/-- The threads end one after the other. -/
def runThreads (s : Serving) (ends : List (List AddrInfo × (Int × Nat) × Bool)) : Result Serving :=
  ends.foldlM endThread s

/-- A callback of `handle_iteration`. -/
def Kernel.callback (k : Kernel) (e : Event) (fd : Int) (handler : FdHandler) (data : Nat)
    (s : Serving) : Result Serving := do
  let s ← runThreads s (k.ends s.1 s.2)
  let a := k.answers s.1 s.2 e fd
  let p ← s.2.deliver e fd handler data a.1 a.2
  .ok (s.1 ++ [.event e fd a.1 a.2], p)

/-- The callback is made if its bit is set and the interest has it. -/
def Kernel.phase (k : Kernel) (wanted : Bool) (e : Event) (fd : Int) (handler : FdHandler)
    (data : Nat) (s : Serving) : Result Serving :=
  if wanted then k.callback e fd handler data s else .ok s

/-- The body of the loop of `handle_iteration`. The key is filled before the first callback, and
`item` points into the array as it was then. -/
def Kernel.handleItem (k : Kernel) (slave : Op → Int → Bool) (s : Serving) (i : Nat) :
    Result Serving :=
  let item := s.2.world.sel.fds i
  if item.used then do
    let r ← k.phase (slave .read item.fd && item.interest.read) .read item.fd item.handler item.data s
    if slave .write i && decide (r.2.world.sel.fdSize ≠ s.2.world.sel.fdSize) then
      .error .useAfterFree
    else
      let now := r.2.world.sel.fds i
      k.phase (slave .write i && now.interest.write) .write item.fd now.handler item.data r
  else .ok s

def Kernel.handleIteration (k : Kernel) (slave : Op → Int → Bool) (s : Serving) : Result Serving :=
  (List.range (s.2.world.sel.maxFd + 1).toNat).foldlM (k.handleItem slave) s

/-- The mutex keeps the threads from queueing meanwhile. -/
def Kernel.handleBlockNotifications (k : Kernel) (s : Serving) : Result Serving :=
  s.2.world.sel.resolutionJobs.foldlM
    (fun s fd => do
      let a := k.answers s.1 s.2 .block fd
      let p ← s.2.fire (.event .block fd a.1 a.2)
      .ok (s.1 ++ [.event .block fd a.1 a.2], p)) s

/-- What `pselect` returns: the sets that it leaves, or -1 with `errno` EAGAIN or EINTR, or -1
with another `errno`. -/
inductive Pselect
  | ready (sets : Op → Int → Bool)
  | interrupted
  | failed

def Kernel.selectorSelect (k : Kernel) (answer : Pselect) (s : Serving) :
    Result (SelectorStatus × Serving) := do
  let slave := s.2.world.sel.master
  let s ← runThreads s (k.ends s.1 s.2)
  match answer with
  | .ready sets => do
    let s ← k.handleIteration (fun op fd => slave op fd && sets op fd) s
    let s ← k.handleBlockNotifications s
    .ok (.success, s)
  | .interrupted => do
    let s ← k.handleBlockNotifications s
    .ok (.success, s)
  | .failed => .ok (.io, s)

/-- The loop of `main`: one answer of `pselect` for each turn, until a signal or a failure. -/
def Kernel.serve (k : Kernel) : List Pselect → Serving → Result (SelectorStatus × Serving)
  | [], s => .ok (.success, s)
  | answer :: rest, s => do
    let r ← k.selectorSelect answer s
    if r.1 = .success then k.serve rest r.2 else .ok r

/-- What the system promises: a new descriptor is not open, a new record is not in use, and no
attempt leaves an item without its reference. -/
structure Kernel.Honest (k : Kernel) : Prop where
  fresh : ∀ hs p e fd (n : Nat), (k.answers hs p e fd).1.socket = some n → p.world.isOpen n = false
  offers : ∀ hs (p : Process) e fd, p.Offers (k.answers hs p e fd).2
  keeps : ∀ hs (p : Process) e fd,
    p.KeepsCount (.event e fd (k.answers hs p e fd).1 (k.answers hs p e fd).2)

section
variable {others socks mng : List Nat} {dissectors : UInt8} {heap : Heap} {users admins : UserTable}
  {base : Int → Bool} {p p' : Process} {l : Happening} {ls : List (Process × Happening)}
  {k : Kernel} {s s' r : Serving} {e : Event} {fd : Int} {o : Outcome} {a : Accepted}

/-! ## The scan -/

/-- What was served is a run of the process. -/
def Process.Serves (p : Process) (s : Serving) : Prop :=
  ∃ ls, Run Process.Step p ls s.2 ∧ ls.map (·.2) = s.1 ∧ ∀ q ∈ ls, q.1.KeepsCount q.2

theorem serves_sound (start : mainProcess others socks mng dissectors heap users admins = some p)
    (serves : p.Serves s) : s.2.Sound p.world.isOpen ∧ s.2.world.sel.Tidy := by
  obtain ⟨ls, run, -, keeps⟩ := serves
  exact ⟨run_sound start run keeps, run_tidy start run keeps⟩

theorem serves_step (serves : p.Serves s) (step : s.2.Step l p') (keeps : s.2.KeepsCount l) :
    p.Serves (s.1 ++ [l], p') := by
  obtain ⟨ls, run, labels, kept⟩ := serves
  refine ⟨ls ++ [(s.2, l)], run.next step, ?_, fun q member => ?_⟩
  · rw [List.map_append, labels]
    rfl
  · rcases List.mem_append.mp member with member | member
    · exact kept q member
    · obtain rfl := List.mem_singleton.mp member
      exact keeps

theorem endThread_serves {thread : List AddrInfo × (Int × Nat) × Bool} (serves : p.Serves s)
    (ran : endThread s thread = .ok r) : p.Serves r ∧ r.2.world.sel.fds = s.2.world.sel.fds ∧
      r.2.world.sel.fdSize = s.2.world.sel.fdSize := by
  obtain ⟨answer, key, queued⟩ := thread
  simp only [endThread] at ran
  split at ran
  · rename_i running
    obtain ⟨q, fired, ran⟩ := bind_eq_ok.mp ran
    obtain rfl := Except.ok.inj ran
    have permits : s.2.Permits (.resolved answer key queued) := List.contains_iff_mem.mp running
    have next := serves_step serves ⟨permits, fired⟩ fun _ _ _ _ _ eq => by cases eq
    refine ⟨next, ?_⟩
    simp only [Process.fire] at fired
    split at fired
    · obtain rfl := Except.ok.inj fired
      cases queued <;> exact ⟨rfl, rfl⟩
    · cases fired
  · obtain rfl := Except.ok.inj ran
    exact ⟨serves, rfl, rfl⟩

theorem runThreads_serves {ends : List (List AddrInfo × (Int × Nat) × Bool)} (serves : p.Serves s)
    (ran : runThreads s ends = .ok r) : p.Serves r ∧ r.2.world.sel.fds = s.2.world.sel.fds ∧
      r.2.world.sel.fdSize = s.2.world.sel.fdSize := by
  refine foldlM_keeps (I := fun _ u => p.Serves u ∧ u.2.world.sel.fds = s.2.world.sel.fds ∧
    u.2.world.sel.fdSize = s.2.world.sel.fdSize) ran ⟨serves, rfl, rfl⟩ ?_
  intro pre thread post u v _ _ before step
  obtain ⟨served, slots, size⟩ := before
  obtain ⟨next, slots', size'⟩ := endThread_serves served step
  exact ⟨next, slots'.trans slots, size'.trans size⟩

/-- The item of an event's descriptor stays with its record while it is in use. -/
theorem did_slot (sound : p.Sound base) (did : p.Did (.event e fd o a) p')
    (used : (p.world.sel.fds fd).used = true) (used' : (p'.world.sel.fds fd).used = true) :
    (p'.world.sel.fds fd).data = (p.world.sel.fds fd).data := by
  cases did with
  | @turn _ _ _ _ key x more marks t called step turns =>
    obtain ⟨stm, record, world⟩ := taken_world e fd (view x p.world)
    have held : (p.world.sel.fds fd).data = x.2.self := turns.held.2
    have before : ((view x p.world).taken e fd).conn.sel.fds = p.world.sel.fds := by
      rw [world]
      split <;> rfl
    rcases turns.acts.used fd used' with ⟨-, owner⟩ | owner
    · rw [before] at owner
      exact congrArg Prod.snd owner
    · rw [record] at owner
      exact (congrArg Prod.snd owner).trans held.symm
  | @arrival isSocks _ _ _ w s passive offers accepted =>
    obtain ⟨n, addr, self, rest, sel, -, -, -, world, fds, -, -, -, unused⟩ :=
      passiveAccept_accepted sound.span accepted
    have slots : w.sel.fds = sel.fds := by
      rw [world]
      cases isSocks <;> rfl
    have other : fd ≠ (n : Int) := by
      rintro rfl
      exact absurd (used.symm.trans unused) (by decide)
    change (w.sel.fds fd).data = _
    rw [slots, fds, Function.update_of_ne other]
  | @refusal isSocks _ _ _ w passive offers refused =>
    obtain ⟨sel, pool, world, fds, -⟩ :=
      passiveAccept_refused sound.span (fun n addr => offers.fresh n addr) refused
    have slots : w.sel.fds = sel.fds := by
      rw [world]
      cases isSocks <;> rfl
    change (w.sel.fds fd).data = _
    rw [slots, fds]

/-- A callback whose key is the item's is a step of the process. -/
theorem callback_serves (start : mainProcess others socks mng dissectors heap users admins = some p)
    (honest : k.Honest) (serves : p.Serves s) (op : Op)
    (registered : s.2.world.sel.Registered fd) (wants : (s.2.world.sel.fds fd).interest.has op = true)
    (event : e = match op with | .read => .read | .write => .write)
    (ran : k.callback e fd (s.2.world.sel.fds fd).handler (s.2.world.sel.fds fd).data s = .ok r) :
    p.Serves r ∧ ((r.2.world.sel.fds fd).used = true →
      (r.2.world.sel.fds fd).data = (s.2.world.sel.fds fd).data) := by
  obtain ⟨mid, threads, ran⟩ := bind_eq_ok.mp ran
  obtain ⟨q, delivered, ran⟩ := bind_eq_ok.mp ran
  obtain rfl := Except.ok.inj ran
  obtain ⟨serves', slots, -⟩ := runThreads_serves serves threads
  have registered' : mid.2.world.sel.Registered fd := by
    unfold FdSelector.Registered at registered ⊢
    rw [slots]
    exact registered
  have notBlock : e ≠ .block := by
    rw [event]
    cases op <;> simp
  have fired : mid.2.fire (.event e fd (k.answers mid.1 mid.2 e fd).1 (k.answers mid.1 mid.2 e fd).2) = .ok q := by
    simp only [Process.fire, notBlock, false_and, if_false, Process.call]
    rw [slots]
    exact delivered
  have permits : mid.2.Permits (.event e fd (k.answers mid.1 mid.2 e fd).1 (k.answers mid.1 mid.2 e fd).2) := by
    refine ⟨?_, fun n opened => honest.fresh _ _ _ _ n opened, honest.offers _ _ _ _⟩
    rw [← slots] at wants
    subst event
    cases op with
    | read => exact ⟨registered', wants⟩
    | write => exact ⟨registered', wants⟩
  have keeps := honest.keeps mid.1 mid.2 e fd
  have sound := (serves_sound start serves').1
  have did := step_did sound keeps ⟨permits, fired⟩
  refine ⟨serves_step serves' ⟨permits, fired⟩ keeps, fun used => ?_⟩
  rw [← slots]
  exact did_slot sound did registered'.2 used

theorem handleItem_serves {slave : Op → Int → Bool} {i : Nat}
    (start : mainProcess others socks mng dissectors heap users admins = some p) (honest : k.Honest)
    (serves : p.Serves s) (ran : k.handleItem slave s i = .ok s') : p.Serves s' := by
  obtain ⟨-, tidy⟩ := serves_sound start serves
  simp only [Kernel.handleItem] at ran
  split at ran
  · rename_i used
    have own : (s.2.world.sel.fds i).fd = i := tidy.consistent.own_used used
    rw [own] at ran
    obtain ⟨r, first, second⟩ := bind_eq_ok.mp ran
    unfold Kernel.phase at first second
    have read : p.Serves r ∧ ((r.2.world.sel.fds i).used = true →
        (r.2.world.sel.fds i).data = (s.2.world.sel.fds i).data) := by
      split at first
      · rename_i wanted
        exact callback_serves start honest serves .read ⟨tidy.valid i used, used⟩
          (Bool.and_eq_true_iff.mp wanted).2 rfl first
      · obtain rfl := Except.ok.inj first
        exact ⟨serves, fun _ => rfl⟩
    obtain ⟨serves', same⟩ := read
    obtain ⟨-, tidy'⟩ := serves_sound start serves'
    split at second
    · cases second
    · split at second
      · rename_i wanted
        have wants : (r.2.world.sel.fds i).interest.has .write = true :=
          (Bool.and_eq_true_iff.mp wanted).2
        -- a slot that the first callback freed wants nothing
        have used' : (r.2.world.sel.fds i).used = true := by
          by_contra unused
          rw [Bool.not_eq_true] at unused
          rw [tidy'.idle i unused] at wants
          cases wants
        rw [← same used'] at second
        exact (callback_serves start honest serves' .write ⟨tidy'.valid i used', used'⟩ wants
          rfl second).1
      · obtain rfl := Except.ok.inj second
        exact serves'
  · obtain rfl := Except.ok.inj ran
    exact serves

theorem handleIteration_serves {slave : Op → Int → Bool}
    (start : mainProcess others socks mng dissectors heap users admins = some p) (honest : k.Honest)
    (serves : p.Serves s) (ran : k.handleIteration slave s = .ok s') : p.Serves s' :=
  foldlM_keeps (I := fun _ s => p.Serves s) ran serves
    fun _ _ _ _ _ _ _ before step => handleItem_serves start honest before step

/-! ## The jobs -/

/-- The job of an event is taken, and no job is queued. -/
theorem did_takes (did : p.Did (.event .block fd o a) p') :
    p'.world.sel.resolutionJobs = p.world.sel.resolutionJobs.erase fd := by
  cases did with
  | @turn _ _ _ _ key x more marks t called step turns =>
    have jobs := turns.acts.jobs
    rw [(taken_world .block fd (view x p.world)).2.2, if_pos rfl] at jobs
    exact jobs

/-- The jobs that were queued are taken one after the other, each once. -/
theorem handleBlockNotifications_serves
    (start : mainProcess others socks mng dissectors heap users admins = some p) (honest : k.Honest)
    (serves : p.Serves s) (ran : k.handleBlockNotifications s = .ok s') :
    p.Serves s' ∧ s'.2.world.sel.resolutionJobs = [] := by
  have all : p.Serves s' ∧ s.2.world.sel.resolutionJobs =
      s.2.world.sel.resolutionJobs ++ s'.2.world.sel.resolutionJobs := by
    refine foldlM_keeps (I := fun pre u => p.Serves u ∧
      s.2.world.sel.resolutionJobs = pre ++ u.2.world.sel.resolutionJobs) ran ⟨serves, rfl⟩ ?_
    intro pre fd post u v split _ before step
    obtain ⟨served, left⟩ := before
    have queue : u.2.world.sel.resolutionJobs = fd :: post :=
      List.append_cancel_left (left.symm.trans split)
    obtain ⟨q, fired, step⟩ := bind_eq_ok.mp step
    obtain rfl := Except.ok.inj step
    have permits : u.2.Permits (.event .block fd (k.answers u.1 u.2 .block fd).1 (k.answers u.1 u.2 .block fd).2) := by
      refine ⟨?_, fun n opened => honest.fresh _ _ _ _ n opened, honest.offers _ _ _ _⟩
      change fd ∈ u.2.world.sel.resolutionJobs
      rw [queue]
      exact .head _
    have keeps := honest.keeps u.1 u.2 .block fd
    have did := step_did (serves_sound start served).1 keeps ⟨permits, fired⟩
    refine ⟨serves_step served ⟨permits, fired⟩ keeps, ?_⟩
    rw [did_takes did, queue, List.erase_cons_head, split, List.append_assoc]
    rfl
  have left : s.2.world.sel.resolutionJobs ++ s'.2.world.sel.resolutionJobs =
      s.2.world.sel.resolutionJobs ++ [] := by
    rw [← all.2, List.append_nil]
  exact ⟨all.1, List.append_cancel_left left⟩

theorem selectorSelect_serves {answer : Pselect} {status : SelectorStatus}
    (start : mainProcess others socks mng dissectors heap users admins = some p) (honest : k.Honest)
    (serves : p.Serves s) (ran : k.selectorSelect answer s = .ok (status, s')) :
    p.Serves s' ∧ (status = .success → s'.2.world.sel.resolutionJobs = []) := by
  obtain ⟨r, threads, ran⟩ := bind_eq_ok.mp ran
  have serves' := (runThreads_serves serves threads).1
  cases answer with
  | ready sets =>
    obtain ⟨u, scanned, ran⟩ := bind_eq_ok.mp ran
    obtain ⟨v, notified, ran⟩ := bind_eq_ok.mp ran
    obtain ⟨-, rfl⟩ := Prod.mk.inj (Except.ok.inj ran)
    have scan := handleIteration_serves start honest serves' scanned
    obtain ⟨done, none'⟩ := handleBlockNotifications_serves start honest scan notified
    exact ⟨done, fun _ => none'⟩
  | interrupted =>
    obtain ⟨v, notified, ran⟩ := bind_eq_ok.mp ran
    obtain ⟨-, rfl⟩ := Prod.mk.inj (Except.ok.inj ran)
    obtain ⟨done, none'⟩ := handleBlockNotifications_serves start honest serves' notified
    exact ⟨done, fun _ => none'⟩
  | failed =>
    obtain ⟨rfl, rfl⟩ := Prod.mk.inj (Except.ok.inj ran)
    exact ⟨serves', fun no => by cases no⟩

theorem serve_serves {answers : List Pselect} {status : SelectorStatus}
    (start : mainProcess others socks mng dissectors heap users admins = some p) (honest : k.Honest)
    (serves : p.Serves s) (ran : k.serve answers s = .ok (status, s')) :
    p.Serves s' ∧ (answers ≠ [] → status = .success → s'.2.world.sel.resolutionJobs = []) := by
  induction answers generalizing s with
  | nil =>
    obtain ⟨-, rfl⟩ := Prod.mk.inj (Except.ok.inj ran)
    exact ⟨serves, fun some' => absurd rfl some'⟩
  | cons answer rest ih =>
    obtain ⟨⟨st, u⟩, selected, ran⟩ := bind_eq_ok.mp ran
    obtain ⟨served, none'⟩ := selectorSelect_serves start honest serves selected
    simp only at ran
    split at ran
    · rename_i success
      obtain ⟨done, empties⟩ := ih served ran
      refine ⟨done, fun _ last => ?_⟩
      cases rest with
      | nil =>
        obtain ⟨-, rfl⟩ := Prod.mk.inj (Except.ok.inj ran)
        exact none' success
      | cons => exact empties (List.cons_ne_nil _ _) last
    · rename_i failed
      obtain ⟨rfl, rfl⟩ := Prod.mk.inj (Except.ok.inj ran)
      exact ⟨served, fun _ success => absurd success failed⟩

/-- Whatever `pselect` answers, and whichever threads end when, what the main loop does is a run of
the server, every call of it permitted: no callback is made for a stale key or for a descriptor
that is not registered with the interest. After a turn that goes well no job is left. -/
theorem serve_runs {answers : List Pselect} {status : SelectorStatus} {hs : List Happening}
    (start : mainProcess others socks mng dissectors heap users admins = some p) (honest : k.Honest)
    (ran : k.serve answers ([], p) = .ok (status, hs, p')) :
    (∃ ls, Run Process.Step p ls p' ∧ ls.map (·.2) = hs ∧ ∀ q ∈ ls, q.1.KeepsCount q.2) ∧
      (answers ≠ [] → status = .success → p'.world.sel.resolutionJobs = []) :=
  serve_serves start honest ⟨[], .start, rfl, fun _ member => absurd member List.not_mem_nil⟩ ran

end

/-- A system in which one client comes and sends its greeting, over and over. -/
def oneClient : Kernel where
  answers := fun _ p _ _ =>
    ({ Outcome.fine with recv := some [0x05, 0x01, 0x02], connect := some .ebadf },
      if p.world.isOpen 5 = false ∧ p.part 7 = none ∧ 7 ∉ p.world.socksPool.list ∧
          7 ∉ p.world.mngPool.list then firstAccept
      else ⟨none, false, none, false⟩)
  ends := fun _ _ => []

theorem oneClient_honest : oneClient.Honest where
  fresh := fun hs p e fd n opened => by cases opened
  offers := by
    intro hs p e fd
    simp only [oneClient]
    split
    · rename_i free
      refine ⟨fun n addr came => ?_, fun r allocated => ?_⟩
      · obtain rfl : 5 = n := (Prod.mk.inj (Option.some.inj came)).1
        exact free.1
      · obtain rfl : 7 = r := Option.some.inj allocated
        exact ⟨by decide, free.2⟩
    · exact ⟨fun n addr came => (by cases came), fun r allocated => by cases allocated⟩
  keeps := by
    intro hs p e fd
    apply fine_keeps
    unfold Happening.fine
    simp [oneClient]

/-- The first client comes in one turn, and its greeting is read in the next. -/
theorem serve_runs_first : ∃ (p p' : Process) (status : SelectorStatus) (hs : List Happening),
    userServer = some p ∧
      oneClient.serve [.ready fun _ _ => true, .ready fun _ _ => true] ([], p) = .ok (status, hs, p') ∧
      (p'.part 7).isSome = true ∧
      (∃ ls, Run Process.Step p ls p' ∧ ls.map (·.2) = hs ∧ ∀ q ∈ ls, q.1.KeepsCount q.2) ∧
        (status = .success → p'.world.sel.resolutionJobs = []) := by
  have served : (userServer.bind fun p => (oneClient.serve
      [.ready fun _ _ => true, .ready fun _ _ => true] ([], p)).toOption.map fun r => r.2.2).any
        (fun p => (p.part 7).isSome) = true := by
    decide +kernel
  obtain ⟨p', last, there⟩ := (Option.any_eq_true _ _).mp served
  obtain ⟨p, start, last⟩ := Option.bind_eq_some_iff.mp last
  obtain ⟨⟨status, hs, q⟩, result, rfl⟩ := Option.map_eq_some_iff.mp last
  have ran : oneClient.serve [.ready fun _ _ => true, .ready fun _ _ => true] ([], p) =
      .ok (status, hs, q) := by
    revert result
    cases oneClient.serve [.ready fun _ _ => true, .ready fun _ _ => true] ([], p) with
    | ok r => exact fun result => congrArg Except.ok (Option.some.inj result)
    | error fault => exact fun result => by cases result
  obtain ⟨runs, empties⟩ := serve_runs start oneClient_honest ran
  exact ⟨p, q, status, hs, start, ran, there, runs, empties (List.cons_ne_nil _ _)⟩

end SocksProxy
