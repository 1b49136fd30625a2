import SocksProxy.Concurrency

/-!
# The server from its start

What holds in every process that a run from `main` reaches: whose each descriptor, item,
record, thread and job is, and that each connection has a run of its own.
-/

namespace SocksProxy

open Lib

section
variable {others socks mng : List Nat} {dissectors : UInt8} {heap : Heap} {users admins : UserTable}
  {base : Int → Bool} {p p' : Process} {l : Happening} {ls : List (Process × Happening)}

/-! ## The start -/

theorem listen_items {passives : List (Nat × FdHandler)} {s s' : FdSelector}
    (span : s.fdSize = itemsMaxSize + 1) (h : listen passives s = some s') :
    s'.fdSize = s.fdSize ∧ s'.resolutionJobs = s.resolutionJobs ∧
      ∀ f, (s'.fds f).used = true → (s.fds f).used = true ∧ s'.fds f = s.fds f ∨
        ∃ q ∈ passives, f = q.1 ∧ (s'.fds f).owner = (q.2, 0) := by
  induction passives generalizing s with
  | nil =>
    obtain rfl := Option.some.inj h
    exact ⟨rfl, rfl, fun f used => .inl ⟨used, rfl⟩⟩
  | cons q rest ih =>
    unfold listen at h
    rw [List.foldlM_cons] at h
    obtain ⟨u, first, h⟩ := Option.bind_eq_some_iff.mp h
    simp only at first
    split at first
    · rename_i taken
      obtain rfl := Option.some.inj first
      obtain ⟨-, -, size, fds⟩ := register_taken span taken
      have full : itemsMaxSize < s.fdSize := by rw [span]; decide
      have jobs := (register_eq full q.1 q.2 opRead 0 true).2.2.2
      obtain ⟨size', jobs', items⟩ := ih size h
      refine ⟨size'.trans (size.trans span.symm), jobs'.trans jobs, fun f used => ?_⟩
      rcases items f used with ⟨before, same⟩ | ⟨q', member, eq, owner⟩
      · by_cases here : f = q.1
        · refine .inr ⟨q, .head _, here, ?_⟩
          rw [same, fds, here, Function.update_self]
          rfl
        · rw [fds, Function.update_of_ne here] at before same
          exact .inl ⟨before, same⟩
      · exact .inr ⟨q', .tail _ member, eq, owner⟩
    · cases first

theorem main_sound (start : mainProcess others socks mng dissectors heap users admins = some p) :
    p.Sound p.world.isOpen ∧ ∀ key, p.part key = none := by
  obtain ⟨sel, listening, rfl⟩ := Option.map_eq_some_iff.mp start
  have span : (selectorNew selectorInitialElements true).2.fdSize = itemsMaxSize + 1 := by decide
  have empty : ∀ f, ((selectorNew selectorInitialElements true).2.fds f).used = false := by
    intro f
    change ((itemsInit (fun _ => itemInit) 0 (nextCapacity selectorInitialElements)) f).used = false
    unfold itemsInit
    split <;> rfl
  obtain ⟨size, jobs, items⟩ := listen_items span listening
  have nobody : ∀ (w : World) key fd, ¬ Process.Has ⟨w, fun _ => none⟩ key fd := by
    rintro w key fd ⟨x, there, -⟩
    cases there
  refine ⟨?_, fun _ => rfl⟩
  constructor
  case span => exact size.trans span
  case nought =>
    refine List.any_eq_false.mpr fun n _ => ?_
    rw [decide_eq_true_eq]
    omega
  case method => exact .inr rfl
  case strays => rfl
  case live => exact fun key x there => nomatch there
  case used =>
    intro fd used
    rcases items fd used with ⟨before, -⟩ | ⟨q, member, rfl, owner⟩
    · exact nomatch before.symm.trans (empty fd)
    · refine .inl ⟨List.any_eq_true.mpr ⟨q.1, ?_, decide_eq_true rfl⟩, ?_⟩
      · rcases List.mem_append.mp member with member | member
        · obtain ⟨n, listed, rfl⟩ := List.mem_map.mp member
          exact List.mem_append_left _ (List.mem_append_right _ listed)
        · obtain ⟨n, listed, rfl⟩ := List.mem_map.mp member
          exact List.mem_append_right _ listed
      · rcases List.mem_append.mp member with member | member
        · obtain ⟨n, -, rfl⟩ := List.mem_map.mp member
          exact .inl owner
        · obtain ⟨n, -, rfl⟩ := List.mem_map.mp member
          exact .inr owner
  case isOpen =>
    exact fun fd => ⟨.inl, fun h => h.elim id fun has => absurd has.choose_spec (nobody _ _ fd)⟩
  case apart => exact fun fd key key' has => absurd has (nobody _ key fd)
  case based => exact fun fd key has => absurd has (nobody _ key fd)
  case pooled => exact List.nodup_nil
  case unpooled => exact fun key member => nomatch member
  case resolvers => exact fun k member => nomatch member
  case jobs =>
    intro fd member
    have member : fd ∈ sel.resolutionJobs := member
    rw [jobs] at member
    cases member
  case outstanding => exact fun key x there => nomatch there

/-- Every reachable process is sound. -/
theorem run_sound (start : mainProcess others socks mng dissectors heap users admins = some p)
    (run : Run Process.Step p ls p') (keeps : ∀ q ∈ ls, q.1.KeepsCount q.2) :
    p'.Sound p.world.isOpen :=
  run.invariant (C := Process.KeepsCount) (I := Process.Sound p.world.isOpen)
    (fun _ _ _ sound keeps step => step_sound sound keeps step) keeps (main_sound start).1

/-- What holds at the start, and what each step of a sound process keeps, holds after every run. -/
theorem run_kept {I : List (Process × Happening) → Process → Prop}
    (start : mainProcess others socks mng dissectors heap users admins = some p) (init : I [] p)
    (keep : ∀ {ls q l q'}, Run Process.Step p ls q → (∀ r ∈ ls, r.1.KeepsCount r.2) →
      q.Sound p.world.isOpen → q.Did l q' → I ls q → I (ls ++ [(q, l)]) q')
    (run : Run Process.Step p ls p') (keeps : ∀ q ∈ ls, q.1.KeepsCount q.2) : I ls p' := by
  induction run with
  | start => exact init
  | @next ls q p' l before step ih =>
    have keeps' : ∀ r ∈ ls, r.1.KeepsCount r.2 := fun r member => keeps r (List.mem_append_left _ member)
    have sound := run_sound start before keeps'
    have kept : q.KeepsCount l := keeps (q, l) (List.mem_append_right _ (.head _))
    exact keep before keeps' sound (step_did sound kept step) (ih keeps')

/-! ## A server by evaluation -/

/-- The server with one user, who may also manage it. -/
def userServer : Option Process := mainProcess [1, 2] [3] [4] 0 oneUser.1 oneUser.2 oneUser.2

/-- The first client comes to the passive socket. -/
def firstArrives : Happening := .event .read 3 .fine firstAccept

/-- An event of a connection, at which no other one comes. -/
def happens (e : Event × Int × Outcome) : Happening :=
  .event e.1 e.2.1 e.2.2 ⟨none, false, none, false⟩

/-- Everything that is queued is sent to the first client. -/
def answered : Happening := happens (.write, 5, { Outcome.fine with connect := some .ebadf })

/-- The first client comes and greets with username/password. -/
def greeted : List Happening := [firstArrives, happens (received [0x05, 0x01, 0x02]), answered]

/-- No attempt connects at once, and no write attempts anything. -/
def Happening.fine : Happening → Bool
  | .event e _ o _ => decide (o.connect ≠ none ∧ (e = .write → o.connect = some .ebadf))
  | .resolved _ _ _ => true

theorem fine_keeps (fine : l.fine = true) : p.KeepsCount l := by
  rintro e fd o a x rfl -
  have labels : [(view x p.world, Label.event e fd o)].map (·.2) =
      [(e, fd, o)].map fun e => .event e.1 e.2.1 e.2.2 := rfl
  refine labels_keep labels ?_ _ (.head _)
  rw [List.all_cons, List.all_nil, Bool.and_true]
  exact fine

theorem served {server : Option Process} {hs : List Happening} {P : Process → Bool}
    (fine : hs.all Happening.fine = true) (plays : (server.bind fun p => p.play hs).any P = true) :
    ∃ p ls p', server = some p ∧ Run Process.Step p ls p' ∧ ls.map (·.2) = hs ∧
      (∀ q ∈ ls, q.1.KeepsCount q.2) ∧ P p' = true := by
  obtain ⟨p', played, good⟩ := (Option.any_eq_true _ _).mp plays
  obtain ⟨p, start, played⟩ := Option.bind_eq_some_iff.mp played
  obtain ⟨ls, run, labels⟩ := played_run played
  refine ⟨p, ls, p', start, run, labels, fun q member => ?_, good⟩
  have listed : q.2 ∈ hs := labels ▸ List.mem_map_of_mem member
  exact fine_keeps (List.all_eq_true.mp fine _ listed)

/-! ## Descriptors and records -/

/-- Whose each open descriptor and each item of the selector is. -/
structure Process.Allotted (base : Int → Bool) (p : Process) : Prop where
  isOpen : ∀ fd, p.world.isOpen fd = true ↔ base fd = true ∨ ∃ key, p.Has key fd
  single : ∀ fd key, p.Has key fd → base fd = false ∧ ∀ key', p.Has key' fd → key' = key
  items : ∀ fd, (p.world.sel.fds fd).used = true →
    base fd = true ∧ ((p.world.sel.fds fd).owner = (.socksPassive, 0) ∨
        (p.world.sel.fds fd).owner = (.mngPassive, 0)) ∨
      ∃ key x, p.part key = some x ∧ (p.world.sel.fds fd).owner = (x.2.handler, key) ∧ x.2.Has fd
  references : ∀ key x, p.part key = some x → ∃ fds : List Int, fds.Nodup ∧
    fds.length = x.2.references ∧
      ∀ fd, fd ∈ fds ↔ (p.world.sel.fds fd).used = true ∧ (p.world.sel.fds fd).data = key

/-- In every run, a descriptor that is open was open at the start or is one of the two of exactly
one connection in use, and an item is that of a passive socket or of the connection that has its
descriptor: nothing leaks, and no connection touches what another one has. -/
theorem descriptors_owned
    (start : mainProcess others socks mng dissectors heap users admins = some p)
    (run : Run Process.Step p ls p') (keeps : ∀ q ∈ ls, q.1.KeepsCount q.2) :
    p'.Allotted p.world.isOpen := by
  have sound := run_sound start run keeps
  constructor
  case isOpen => exact sound.isOpen
  case single => exact fun fd key has =>
    ⟨sound.based fd key has, fun key' has' => sound.apart fd key' key has' has⟩
  case items =>
    intro fd used
    rcases sound.used fd used with passive | ⟨key, x, there, owner⟩
    · exact .inl passive
    · obtain ⟨x', there', has⟩ := owner_has sound there used owner
      obtain rfl := Option.some.inj (there'.symm.trans there)
      exact .inr ⟨key, x', there, owner, has⟩
  case references =>
    intro key x there
    obtain ⟨self, -, live⟩ := sound.live key x there
    obtain ⟨fds, nodup, length, items⟩ := (sound_accounted live).items
    refine ⟨fds, nodup, length, fun fd => (items fd).symm.trans ?_⟩
    rw [← self]
    rfl

theorem descriptors_owned_first :
    ∃ p p' : Process, userServer = some p ∧ p'.Has 7 5 ∧ p'.Allotted p.world.isOpen := by
  have plays : (userServer.bind fun p => p.play [firstArrives]).any (fun p =>
      (p.part 7).any fun x => decide (x.2.clientFd = 5)) = true := by
    decide +kernel
  obtain ⟨p, ls, p', start, run, -, keeps, there⟩ := served (by decide) plays
  obtain ⟨x, there, client⟩ := (Option.any_eq_true _ _).mp there
  have client := of_decide_eq_true client
  exact ⟨p, p', start, ⟨x, there, .inl client.symm⟩, descriptors_owned start run keeps⟩

/-- Where the records are that callbacks, threads and pools refer to. -/
structure Process.Grounded (p : Process) : Prop where
  called : ∀ e fd o a, p.Permits (.event e fd o a) →
    (p.world.sel.fds fd).data = 0 ∧ ((p.world.sel.fds fd).handler = .socksPassive ∨
        (p.world.sel.fds fd).handler = .mngPassive) ∨
      ∃ x, p.part (p.world.sel.fds fd).data = some x ∧
        x.2.self = (p.world.sel.fds fd).data ∧ (p.world.sel.fds fd).handler = x.2.handler
  answered : ∀ answer k queued, p.Permits (.resolved answer k queued) → ∃ x, p.part k.2 = some x
  swept : p.world.strays = []
  once : p.world.pooled.Nodup
  pooled : ∀ key ∈ p.world.pooled, p.part key = none ∧
    (∀ fd, (p.world.sel.fds fd).used = true → (p.world.sel.fds fd).data ≠ key) ∧
      ∀ k ∈ p.world.resolvers, k.2 ≠ key

/-- In every run, whatever the selector calls next and whichever thread ends next, it finds its
record in use; a released record is in a pool once at most, and no item and no thread has it. -/
theorem records_grounded
    (start : mainProcess others socks mng dissectors heap users admins = some p)
    (run : Run Process.Step p ls p') (keeps : ∀ q ∈ ls, q.1.KeepsCount q.2) : p'.Grounded := by
  have sound := run_sound start run keeps
  constructor
  case called =>
    intro e fd o a permits
    have used : (p'.world.sel.fds fd).used = true := by
      cases e with
      | read => exact permits.1.1.2
      | write => exact permits.1.1.2
      | block => exact job_used sound permits.1
    rcases sound.used fd used with ⟨-, passive | passive⟩ | ⟨key, x, there, owner⟩
    · exact .inl ⟨congrArg Prod.snd passive, .inl (congrArg Prod.fst passive)⟩
    · exact .inl ⟨congrArg Prod.snd passive, .inr (congrArg Prod.fst passive)⟩
    · have data : (p'.world.sel.fds fd).data = key := congrArg Prod.snd owner
      rw [data]
      exact .inr ⟨x, there, (sound.live key x there).1, congrArg Prod.fst owner⟩
  case answered =>
    intro answer k queued permits
    obtain ⟨x, there, -⟩ := sound.resolvers k permits
    exact ⟨x, there⟩
  case swept => exact sound.strays
  case once => exact sound.pooled
  case pooled =>
    intro key member
    obtain ⟨absent, address⟩ := sound.unpooled key member
    refine ⟨absent, fun fd used data => ?_, fun k running same => ?_⟩
    · exact (sound_ready sound address absent).fresh fd used data
    · obtain ⟨x, there, -⟩ := sound.resolvers k running
      exact nomatch there.symm.trans ((congrArg p'.part same).trans absent)

/-- A client that offers no method of the server is refused, and its record is in the pool. -/
theorem records_grounded_first : ∃ p ls p', userServer = some p ∧ Run Process.Step p ls p' ∧
    p'.world.pooled = [7] ∧ p'.Grounded := by
  have plays : (userServer.bind fun p => p.play
      [firstArrives, happens (received [0x05, 0x01, 0x00]), answered]).any
        (fun p => decide (p.world.pooled = [7])) = true := by
    decide +kernel
  obtain ⟨p, ls, p', start, run, -, keeps, pooled⟩ := served (by decide) plays
  exact ⟨p, ls, p', start, run, of_decide_eq_true pooled, records_grounded start run keeps⟩

/-! ## Connections on their own -/

/-- A connection that its passive socket has just accepted, with its record at `key`. -/
def Born (key : Nat) (v : Session) : Prop :=
  v.conn.self = key ∧ v.conn.Tidy ∧ ∃ isSocks, JustAccepted isSocks v

/-- The attempts of the connection keep the count, and what the others leave is tidy. -/
def KeepsOrder (s : Session) (l : Label) : Prop := KeepsCount s l ∧ ∀ w, l = .env w → w.Tidy

/-- A step of a connection among others. -/
def Counting (s : Session) (l : Label) (t : Session) : Prop := Guarded s l t ∧ KeepsOrder s l

/-- The job of a resolver thread could be allocated. -/
def Happening.Queued : Happening → Prop
  | .resolved _ _ queued => queued = true
  | .event _ _ _ _ => True

theorem counting_quiet {s t : Session} {l : Label} (quiet : ∀ e fd o, l ≠ .event e fd o)
    (tidy : ∀ w, l = .env w → w.Tidy) (step : Guarded s l t) : Counting s l t := by
  refine ⟨step, ⟨fun o n starts => ?_, fun o retries => ?_⟩, tidy⟩
  · rcases starts with ⟨fd, p, eq, -⟩ | ⟨fd, eq, -⟩
    · exact absurd eq (quiet _ _ _)
    · exact absurd eq (quiet _ _ _)
  · obtain ⟨⟨fd, eq⟩, -⟩ := retries
    exact absurd eq (quiet _ _ _)

/-- What the others do is a step of the environment. -/
theorem moves_env {key key' : Nat} {k' : Option (StateMachine × Socks5)} {w : World}
    {x : StateMachine × Socks5} (sound : p.Sound base) (moves : p.Moves base key k' w)
    (ne : key' ≠ key) (there : p.part key' = some x) :
    ∃ ms, Run Counting (view x p.world) ms (view x w) :=
  ⟨_, .single (counting_quiet (l := .env w) (fun _ _ _ eq => nomatch eq)
    (fun _ same => Label.env.inj same ▸ moved_tidy sound moves)
    ⟨moves_rely sound moves ne there, rfl⟩)⟩

theorem did_continues (sound : p.Sound base) (keeps : p.KeepsCount l) (allocated : l.Queued)
    (did : p.Did l p') : p.Continues view Counting Born p' := by
  cases did with
  | @turn e fd o a key x more marks t called step turns =>
    have moves := turns_moves sound turns
    refine continues_move (fun y eq => ?_) fun key' x' ne there' => moves_env sound moves ne there'
    have counting : Counting (view x p.world) (.event e fd o) t := by
      refine ⟨step, keeps e fd o a x rfl ?_, fun _ eq => nomatch eq⟩
      have data : (p.world.sel.fds fd).data = x.2.self := turns.held.2
      rw [data, (sound.live key x turns.there).1]
      exact turns.there
    have same : y = (t.stm, t.conn.toSocks5) := by
      unfold Session.leaves at eq
      split at eq
      · cases eq
      · exact (Option.some.inj eq).symm
    subst same
    exact ⟨_, _, .inl ⟨x, turns.there, rfl⟩, .single counting⟩
  | @arrival isSocks fd o a w s passive offers accepted =>
    obtain ⟨just, world, absent, moves⟩ := accepted_moves sound offers accepted
    refine continues_move (fun y eq => ?_) fun key' x' ne there' => moves_env sound moves ne there'
    obtain rfl := Option.some.inj eq
    refine ⟨s, [], .inr ⟨rfl, world ▸ moved_tidy sound moves, isSocks, just⟩, ?_⟩
    have same : view (s.stm, s.conn.toSocks5) w = s := by rw [← world]; rfl
    rw [same]
    exact .start
  | refusal fd o passive offers refused =>
    obtain ⟨key, absent, moves⟩ := refused_moves sound offers refused
    refine continues_world fun key' x' there' => moves_env sound moves ?_ there'
    rintro rfl
    exact nomatch there'.symm.trans absent
  | @answer answer k queued x member there =>
    have moves := @resolved_moves base p x k queued answer sound member there
    refine continues_move (fun y eq => ?_) fun key' x' ne there' => moves_env sound moves ne there'
    obtain rfl : queued = true := allocated
    have self : x.2.self = k.2 := (sound.live k.2 x there).1
    have same : (k.1, x.2.self) = k := by rw [self]
    have step : Guarded (view x p.world) (.resolved answer k.1)
        (resolverLeaves true answer k (view x p.world)) := by
      refine ⟨?_, ?_⟩
      · change (k.1, x.2.self) ∈ p.world.resolvers
        rw [same]
        exact member
      · change Except.ok (resolverEnds answer (k.1, x.2.self) (view x p.world)) = .ok _
        rw [same]
        rfl
    have same : y = ((resolverLeaves true answer k (view x p.world)).stm,
        (resolverLeaves true answer k (view x p.world)).conn.toSocks5) := by
      unfold Session.leaves at eq
      split at eq
      · cases eq
      · exact (Option.some.inj eq).symm
    subst same
    exact ⟨_, _, .inl ⟨x, there, rfl⟩, .single (counting_quiet (l := .resolved answer k.1)
      (fun _ _ _ eq => nomatch eq) (fun _ eq => nomatch eq) step)⟩

/-- However the events of the connections interleave, each connection goes through a run of its
own, in which what the others do leaves it what it relies on. -/
theorem connection_alone (start : mainProcess others socks mng dissectors heap users admins = some p)
    (run : Run Process.Step p ls p') (keeps : ∀ q ∈ ls, q.1.KeepsCount q.2 ∧ q.2.Queued) {key : Nat}
    {x : StateMachine × Socks5} (there : p'.part key = some x) :
    ∃ v ms, Born key v ∧ Run Guarded v ms (view x p'.world) ∧ ∀ q ∈ ms, KeepsOrder q.1 q.2 := by
  obtain ⟨sound, alone⟩ := main_sound start
  obtain ⟨-, seen⟩ := @seen_run Nat (StateMachine × Socks5) World Session Happening Label view Counting
    Born p p' Process.Step (Process.Sound p.world.isOpen) (fun (p : Process) l => p.KeepsCount l ∧ l.Queued) ls
    (fun p l p' sound keeps step => by
      have did := step_did sound keeps.1 step
      exact ⟨step_sound sound keeps.1 step, did_continues sound keeps.1 keeps.2 did⟩)
    sound alone run keeps
  obtain ⟨v, ms, born, own⟩ := seen key x there
  have both : ∀ {ms u}, Run Counting v ms u → Run Guarded v ms u ∧ ∀ q ∈ ms, KeepsOrder q.1 q.2 := by
    intro ms u own
    induction own with
    | start => exact ⟨.start, fun _ member => nomatch member⟩
    | @next ms u u' l _ step ih =>
      refine ⟨.next ih.1 step.1, fun q member => ?_⟩
      rcases List.mem_append.mp member with member | member
      · exact ih.2 q member
      · obtain rfl := List.mem_singleton.mp member
        exact step.2
  obtain ⟨own, counting⟩ := both own
  exact ⟨v, ms, born, own, counting⟩

theorem connection_alone_first : ∃ (p p' : Process) (x : StateMachine × Socks5) (v : Session)
    (ms : List (Session × Label)), userServer = some p ∧ p'.part 7 = some x ∧
      x.1.current = some SocksV5State.userpassRead.num ∧ Born 7 v ∧
      Run Guarded v ms (view x p'.world) ∧ ∀ q ∈ ms, KeepsOrder q.1 q.2 := by
  have plays : (userServer.bind fun p => p.play greeted).any (fun p => (p.part 7).any fun x =>
      decide (x.1.current = some SocksV5State.userpassRead.num)) = true := by
    decide +kernel
  obtain ⟨p, ls, p', start, run, labels, keeps, there⟩ := served (by decide) plays
  obtain ⟨x, there, reading⟩ := (Option.any_eq_true _ _).mp there
  have queued : ∀ q ∈ ls, q.2.Queued := by
    intro q member
    have listed : q.2 ∈ greeted := labels ▸ List.mem_map_of_mem member
    simp only [greeted, List.mem_cons, List.not_mem_nil, or_false] at listed
    rcases listed with eq | eq | eq <;> rw [eq] <;> trivial
  obtain ⟨v, ms, born, own, counting⟩ :=
    connection_alone start run (fun q member => ⟨keeps q member, queued q member⟩) there
  exact ⟨p, p', x, v, ms, start, there, of_decide_eq_true reading, born, own, counting⟩

end

end SocksProxy
