import SocksProxy.Whole

/-!
# Name resolution

A connection waits in REQUEST_RESOLV for the job of its resolver thread. It has one thread
or one job while it waits, unless the thread was never created or its job was not
allocated, and then it waits for good.
-/

namespace SocksProxy

open Lib

section
variable {others socks mng : List Nat} {dissectors : UInt8} {heap : Heap} {users admins : UserTable}
  {base : Int → Bool} {p p' : Process} {l : Happening} {ls : List (Process × Happening)}
  {k k' : Course} {act : Act} {s t : Session} {e : Event} {o : Outcome} {fd : Int} {c mid : Conn}
  {key : Nat} {x : StateMachine × Socks5} {more : List Call} {marks : List Mark}

/-! ## Into REQUEST_RESOLV -/

/-- A failure of `pthread_create` other than -1 is not noticed. -/
theorem requestProcess_created {d : RequestSt} {parser : RequestParser}
    (waits : (requestProcess o fd d parser c).1 = SocksV5State.requestResolv.num) :
    o.pthreadCreate ≠ -1 := by
  unfold requestProcess at waits
  intro failed
  split at waits
  · cases waits
  · dsimp only at waits
    split at waits
    · cases waits
    · split at waits
      · cases waits
      · split at waits
        · split at waits
          · cases waits
          · cases waits
        · cases waits

theorem requestRead_created (ran : requestRead o fd c = .ok (SocksV5State.requestResolv.num, mid)) :
    o.pthreadCreate ≠ -1 := by
  obtain ⟨x, -, ⟨-, ret, -⟩ | ⟨-, got, -, -, ret, -⟩ | ⟨-, bytes, p, rb, p', -, -, -, -, fed⟩⟩ :=
    requestRead_ok ran
  · cases ret
  · cases ret
  · rcases fed with ⟨-, processed⟩ | ⟨-, ret, -⟩
    · exact requestProcess_created (congrArg Prod.fst processed).symm
    · cases ret

/-- A course comes to wait for a name from a request. -/
theorem step_resolving (follows : k.Step act k') (phase : k'.phase = .resolving) :
    k.phase = .resolving ∨ k.phase = .reading := by
  cases follows with
  | idle => exact .inl phase
  | resolve before => exact .inr before
  | retry | retryAfter | first =>
    obtain waits | answered | failed := attempt_phase _ _ _ _
    · exact nomatch phase.symm.trans waits
    · exact nomatch phase.symm.trans answered
    · exact nomatch phase.symm.trans failed
  | _ => cases phase

theorem resolving_over (at' : s.In .requestResolv) (h : handleEvent e o fd s = .ok t) :
    ¬ t.In .requestResolv := by
  intro still
  obtain rfl := resolving_block at' h
  obtain ⟨handler, mid, next, picked, ran, stm, -⟩ := socks_event at' h
  obtain rfl := Option.some.inj picked
  have same : next = .requestResolv := by
    have current := still.2
    rw [stm] at current
    exact SocksV5State.num_inj (Option.some.inj current)
  subst same
  have ran : requestResolvDone fd s.conn = .ok (SocksV5State.requestResolv.num, mid) := ran
  unfold requestResolvDone at ran
  split at ran
  · obtain ⟨conn, -, ran⟩ := bind_eq_ok.mp ran
    obtain ⟨d, -, ran⟩ := bind_eq_ok.mp ran
    exact nomatch (Prod.mk.inj (Except.ok.inj ran)).1
  · exact nomatch (Prod.mk.inj (Except.ok.inj ran)).1

/-- The event that comes to wait for a name finishes a request. -/
theorem resolv_entered (sound : s.Sound) (step : Guarded s (.event e fd o) t)
    (kind : t.conn.isSocks = s.conn.isSocks) (waits : t.In .requestResolv) : s.In .requestRead ∧ o.pthreadCreate ≠ -1 := by
  have fired : handleEvent e o fd (s.taken e fd) = .ok t := fire_event.symm.trans step.2
  obtain ⟨stm, record, -⟩ := taken_world e fd s
  have stands : ∀ y, (s.taken e fd).In y ↔ s.In y := by
    intro y
    unfold Session.In
    rw [record, stm]
  have reads : s.In .requestRead := by
    rcases sound with ⟨k, place, -, -⟩ | serves
    · obtain ⟨act, k', follows, place', -⟩ := step_advances place step
      have phase : k'.phase = .resolving := by
        have covers := place_covers place' waits
        revert covers
        cases k'.phase <;> simp [Phase.covers]
      rcases step_resolving follows phase with before | before
      · simp only [Course.Place, before] at place
        exact absurd waits (resolving_over ((stands _).mpr place.1) fired)
      · simp only [Course.Place, before] at place
        exact place.1
    · exact absurd ((waits.1.symm.trans kind).trans serves.mng) (by decide)
  refine ⟨reads, ?_⟩
  obtain ⟨handler, mid, next, picked, ran, stm', -⟩ := socks_event ((stands _).mpr reads) fired
  have same : next = .requestResolv := by
    have current := waits.2
    rw [stm'] at current
    exact SocksV5State.num_inj (Option.some.inj current)
  subst same
  cases e with
  | read =>
    obtain rfl := Option.some.inj picked
    exact requestRead_created ran
  | write => cases picked
  | block => cases picked

/-! ## While a name is waited for -/

/-- The call of `pthread_create` did not fail unnoticed, and the job was allocated. -/
def Happening.Resolves : Happening → Prop
  | .event _ _ o _ => o.pthreadCreate = 0 ∨ o.pthreadCreate = -1
  | .resolved _ _ queued => queued = true

/-- Every connection that waits for a name has a thread or a job. -/
def Process.Attended (p : Process) : Prop :=
  ∀ key x, p.part key = some x → (view x p.world).In .requestResolv →
    0 < p.world.outstanding key x.2.clientFd

theorem leaves_eq {y : StateMachine × Socks5} (h : t.leaves = some y) : y = (t.stm, t.conn.toSocks5) := by
  unfold Session.leaves at h
  split at h
  · cases h
  · exact (Option.some.inj h).symm

/-- A waiting connection that no step is about keeps its thread or job. -/
theorem attended_other {k' : Option (StateMachine × Socks5)} {w : World}
    (moves : p.Moves base key k' w) (attended : p.Attended) {key' : Nat} (ne : key' ≠ key)
    (there : p.part key' = some x) (waits : (view x w).In .requestResolv) :
    0 < w.outstanding key' x.2.clientFd := by
  rw [moves.elsewhere key' ne _ ⟨x, there, .inl rfl⟩]
  exact attended key' x there waits

theorem turns_started (turns : p.Turns key x e fd o more marks t) (sound : p.Sound base)
    (step : Guarded (view x p.world) (.event e fd o) t) (waits : t.In .requestResolv)
    (created : o.pthreadCreate = 0 ∨ o.pthreadCreate = -1) :
    0 < t.conn.toWorld.outstanding key x.2.clientFd := by
  obtain ⟨self, address, live⟩ := sound.live key x turns.there
  obtain ⟨-, record, world⟩ := taken_world e fd (view x p.world)
  have kind : t.conn.isSocks = (view x p.world).conn.isSocks := by
    rw [turns.acts.isSocks, record]
  obtain ⟨reads, noticed⟩ := resolv_entered live step kind waits
  have threads := turns.counts.threads
  rw [if_pos ⟨reads, waits, created.resolve_right noticed⟩] at threads
  have client := reading_client live reads (by decide) turns.held
  have client : fd = x.2.clientFd := client
  have self' : ((view x p.world).taken e fd).conn.self = key := by
    rw [record]
    exact self
  refine Nat.lt_of_lt_of_le (List.count_pos_iff.mpr ?_) (Nat.le_add_right _ _)
  rw [turns.acts.resolvers, threads, self', List.mem_append, ← client]
  exact .inr (List.mem_replicate.mpr ⟨by decide, rfl⟩)

theorem did_attended (sound : p.Sound base) (attended : p.Attended) (resolves : l.Resolves)
    (did : p.Did l p') : p'.Attended := by
  cases did with
  | @turn e fd o a key x more marks t called step turns =>
    have moves := turns_moves sound turns
    intro key' y there waits
    by_cases same : key' = key
    · subst same
      rw [move_self] at there
      obtain rfl := leaves_eq there
      have client : t.conn.clientFd = x.2.clientFd := by
        rw [turns.acts.clientFd, (taken_world e fd (view x p.world)).2.1]
        rfl
      change 0 < t.conn.toWorld.outstanding key' t.conn.clientFd
      rw [client]
      exact turns_started turns sound step waits resolves
    · rw [move_other _ same] at there
      exact attended_other moves attended same there waits
  | @arrival isSocks fd o a w s passive offers accepted =>
    obtain ⟨just, world, absent, moves⟩ := accepted_moves sound offers accepted
    intro key' y there waits
    by_cases same : key' = s.conn.self
    · subst same
      rw [move_self] at there
      obtain rfl := Option.some.inj there
      obtain ⟨-, -, stm, -⟩ := accepted_footing just
      have current : s.stm.current = some SocksV5State.requestResolv.num := waits.2
      rw [stm] at current
      cases current
    · rw [move_other _ same] at there
      exact attended_other moves attended same there waits
  | refusal fd o passive offers refused =>
    obtain ⟨key, absent, moves⟩ := refused_moves sound offers refused
    intro key' y there waits
    refine attended_other moves attended ?_ there waits
    rintro rfl
    exact nomatch there.symm.trans absent
  | @answer answer k queued x member there =>
    have moves := @resolved_moves base p x k queued answer sound member there
    obtain rfl : queued = true := resolves
    intro key' y there' waits
    by_cases same : key' = k.2
    · subst same
      rw [move_self] at there'
      obtain rfl := leaves_eq there'
      have descriptor : k.1 = x.2.clientFd := by
        obtain ⟨x', there', descriptor⟩ := sound.resolvers k member
        obtain rfl := Option.some.inj (there'.symm.trans there)
        exact descriptor
      refine Nat.lt_of_lt_of_le (List.count_pos_iff.mpr ?_) (Nat.le_add_left _ _)
      change x.2.clientFd ∈ k.1 :: p.world.sel.resolutionJobs
      rw [descriptor]
      exact .head _
    · rw [move_other _ same] at there'
      exact attended_other moves attended same there' waits

/-- In every run, a connection has at most one resolver thread or job, and none outside
REQUEST_RESOLV; every thread and every job is for a connection in use, by its client's
descriptor. If no `pthread_create` failed with another number than -1 and no job was lost, each
connection that waits has exactly one. -/
theorem resolution_exact
    (start : mainProcess others socks mng dissectors heap users admins = some p)
    (run : Run Process.Step p ls p') (keeps : ∀ q ∈ ls, q.1.KeepsCount q.2) :
    (∀ key x, p'.part key = some x →
      p'.world.outstanding key x.2.clientFd ≤ 1 ∧
      (0 < p'.world.outstanding key x.2.clientFd → (view x p'.world).In .requestResolv) ∧
      ((∀ q ∈ ls, q.2.Resolves) → ((view x p'.world).In .requestResolv ↔
        p'.world.outstanding key x.2.clientFd = 1))) ∧
    (∀ k ∈ p'.world.resolvers, ∃ x, p'.part k.2 = some x ∧ k.1 = x.2.clientFd) ∧
    (∀ fd ∈ p'.world.sel.resolutionJobs, ∃ key x, p'.part key = some x ∧ fd = x.2.clientFd ∧
      (p'.world.sel.fds fd).owner = (x.2.handler, key)) := by
  have sound := run_sound start run keeps
  refine ⟨fun key x there => ?_, sound.resolvers, fun fd member => ?_⟩
  · obtain ⟨bound, waiting⟩ := sound.outstanding key x there
    refine ⟨bound, waiting, fun resolves => ⟨fun waits => ?_, fun one => waiting (one ▸ Nat.one_pos)⟩⟩
    obtain ⟨first, alone⟩ := main_sound start
    obtain ⟨-, attended⟩ := run.invariant
      (C := fun p l => p.KeepsCount l ∧ l.Resolves)
      (I := fun q => q.Sound p.world.isOpen ∧ q.Attended)
      (fun q l q' held cond step => by
        have did := step_did held.1 cond.1 step
        exact ⟨step_sound held.1 cond.1 step, did_attended held.1 held.2 cond.2 did⟩)
      (fun q member => ⟨keeps q member, resolves q member⟩)
      ⟨first, fun key x there => nomatch (alone key).symm.trans there⟩
    exact Nat.le_antisymm bound (attended key x there waits)
  · obtain ⟨key, x, there, rfl⟩ := sound.jobs fd member
    obtain ⟨self, -, live⟩ := sound.live key x there
    obtain ⟨_, _, footing, -⟩ := sound_footing live
    refine ⟨key, x, there, rfl, ?_⟩
    have item := footing.client.2
    have slot : p'.world.sel.fds x.2.clientFd = _ := item
    rw [slot, Item.owner]
    exact Prod.ext rfl self

/-- The first client logs in and asks for a domain, with what `pthread_create` returns. -/
def asksName (pthreadCreate : Int) : List Happening :=
  greeted ++ [happens (received userMessage), answered,
    happens (.read, 5, { Outcome.fine with recv := some domainRequest, pthreadCreate := pthreadCreate })]

theorem asked {pthreadCreate : Int} {P : Process → StateMachine × Socks5 → Bool}
    (plays : (userServer.bind fun p => p.play (asksName pthreadCreate)).any
      (fun p => (p.part 7).any (P p)) = true) :
    ∃ p ls p' x, userServer = some p ∧ Run Process.Step p ls p' ∧
      ls.map (·.2) = asksName pthreadCreate ∧ (∀ q ∈ ls, q.1.KeepsCount q.2) ∧
      p'.part 7 = some x ∧ P p' x = true := by
  obtain ⟨p, ls, p', start, run, labels, keeps, there⟩ := served rfl plays
  obtain ⟨x, there, good⟩ := (Option.any_eq_true _ _).mp there
  exact ⟨p, ls, p', x, start, run, labels, keeps, there, good⟩

theorem resolution_exact_first : ∃ (p p' : Process) (x : StateMachine × Socks5),
    userServer = some p ∧ p'.part 7 = some x ∧ (view x p'.world).In .requestResolv ∧
      p'.world.outstanding 7 x.2.clientFd = 1 := by
  have plays : (userServer.bind fun p => p.play (asksName 0)).any (fun p => (p.part 7).any fun x =>
      decide ((view x p.world).In .requestResolv)) = true := by
    decide +kernel
  obtain ⟨p, ls, p', x, start, run, labels, keeps, there, waits⟩ := asked plays
  have waits := of_decide_eq_true waits
  have resolves : ∀ q ∈ ls, q.2.Resolves := by
    intro q member
    have listed : q.2 ∈ asksName 0 := labels ▸ List.mem_map_of_mem member
    simp only [asksName, greeted, List.cons_append, List.nil_append, List.mem_cons, List.not_mem_nil,
      or_false] at listed
    rcases listed with eq | eq | eq | eq | eq | eq <;> rw [eq] <;> exact .inl rfl
  exact ⟨p, p', x, start, there, waits,
    (((resolution_exact start run keeps).1 7 x there).2.2 resolves).mp waits⟩

/-! ## Waiting for good -/

/-- Only a job is delivered to a connection that waits for a name. -/
theorem waiting_job (sound : s.Sound) (waits : s.In .requestResolv) (step : Guarded s (.event e fd o) t) :
    e = .block ∧ fd = s.conn.clientFd ∧ fd ∈ s.conn.sel.resolutionJobs := by
  obtain ⟨⟨⟨registered, data, ready⟩, -⟩, -⟩ := step
  have client := reading_client sound waits (by decide) ⟨registered.2, data⟩
  have noop : s.conn.interestOf s.conn.clientFd = opNoop := by
    rcases sound with ⟨k, place, -, -⟩ | serves
    · have phase : k.phase = .resolving := by
        have covers := place_covers place waits
        revert covers
        cases k.phase <;> simp [Phase.covers]
      simp only [Course.Place, phase] at place
      exact place.2.1
    · exact absurd (waits.1.symm.trans serves.mng) (by decide)
  rw [← client] at noop
  unfold Conn.interestOf at noop
  cases e with
  | block => exact ⟨rfl, client, ready⟩
  | read =>
    simp only [noop] at ready
    cases ready
  | write =>
    simp only [noop] at ready
    cases ready

/-- Nothing that happens is about a connection that lost its thread. -/
theorem did_stranded (sound : p.Sound base) (did : p.Did l p') (there : p.part key = some x)
    (waits : (view x p.world).In .requestResolv) (lost : p.world.outstanding key x.2.clientFd = 0) :
    p'.part key = some x ∧ p'.world.outstanding key x.2.clientFd = 0 := by
  have others : ∀ {key' k' w}, p.Moves base key' k' w → key ≠ key' →
      (p.become key' k' w).part key = some x ∧
        (p.become key' k' w).world.outstanding key x.2.clientFd = 0 := by
    intro key' k' w moves ne
    refine ⟨(move_other k' ne).trans there, ?_⟩
    exact (moves.elsewhere key ne _ ⟨x, there, .inl rfl⟩).trans lost
  cases did with
  | @turn e fd o a key' x' more marks t called step turns =>
    refine others (turns_moves sound turns) ?_
    rintro rfl
    obtain rfl := Option.some.inj (turns.there.symm.trans there)
    obtain ⟨-, -, live⟩ := sound.live key x' there
    obtain ⟨-, rfl, queued⟩ := waiting_job live waits step
    have positive := List.count_pos_iff.mpr queued
    unfold World.outstanding at lost
    change 0 < p.world.sel.resolutionJobs.count x'.2.clientFd at positive
    omega
  | @arrival isSocks fd o a w s passive offers accepted =>
    obtain ⟨just, world, absent, moves⟩ := accepted_moves sound offers accepted
    refine others moves ?_
    rintro rfl
    exact nomatch there.symm.trans absent
  | refusal fd o passive offers refused =>
    obtain ⟨key', absent, moves⟩ := refused_moves sound offers refused
    obtain ⟨-, after⟩ := others moves (by
      rintro rfl
      exact nomatch there.symm.trans absent)
    exact ⟨there, after⟩
  | @answer answer k queued x' member there' =>
    refine others (@resolved_moves base p x' k queued answer sound member there') ?_
    rintro rfl
    obtain ⟨y, there'', descriptor⟩ := sound.resolvers k member
    obtain rfl := Option.some.inj (there''.symm.trans there)
    have positive := List.count_pos_iff.mpr member
    have same : (y.2.clientFd, k.2) = k := by rw [← descriptor]
    unfold World.outstanding at lost
    rw [same] at lost
    omega

/-- A connection that waits for a name without a thread or a job waits for ever: whatever happens
from then on, its record stays as it is and its descriptor stays open. -/
theorem resolution_stranded {q : Process} {ms : List (Process × Happening)}
    (start : mainProcess others socks mng dissectors heap users admins = some p)
    (run : Run Process.Step p ls q) (keeps : ∀ r ∈ ls, r.1.KeepsCount r.2) (there : q.part key = some x)
    (waits : (view x q.world).In .requestResolv) (lost : q.world.outstanding key x.2.clientFd = 0)
    (later : Run Process.Step q ms p') (keeps' : ∀ r ∈ ms, r.1.KeepsCount r.2) :
    p'.part key = some x ∧ p'.world.isOpen x.2.clientFd = true ∧
      p'.world.outstanding key x.2.clientFd = 0 := by
  obtain ⟨sound, still, none'⟩ := later.invariant (C := Process.KeepsCount)
    (I := fun r => r.Sound p.world.isOpen ∧ r.part key = some x ∧
      r.world.outstanding key x.2.clientFd = 0)
    (fun r l r' held keeps step =>
      ⟨step_sound held.1 keeps step,
        did_stranded held.1 (step_did held.1 keeps step) held.2.1 waits held.2.2⟩)
    keeps' ⟨run_sound start run keeps, there, lost⟩
  exact ⟨still, has_open sound ⟨x, still, .inl rfl⟩, none'⟩

/-- `pthread_create` failed with EAGAIN. -/
theorem resolution_stranded_first : ∃ (p q : Process) (x : StateMachine × Socks5),
    userServer = some p ∧ q.part 7 = some x ∧ (view x q.world).In .requestResolv ∧
      ∀ ms p', Run Process.Step q ms p' → (∀ r ∈ ms, r.1.KeepsCount r.2) →
        p'.part 7 = some x ∧ p'.world.isOpen x.2.clientFd = true ∧
          p'.world.outstanding 7 x.2.clientFd = 0 := by
  have plays : (userServer.bind fun p => p.play (asksName 11)).any (fun p => (p.part 7).any fun x =>
      decide ((view x p.world).In .requestResolv ∧ p.world.outstanding 7 x.2.clientFd = 0)) = true := by
    decide +kernel
  obtain ⟨p, ls, q, x, start, run, -, keeps, there, facts⟩ := asked plays
  obtain ⟨waits, lost⟩ := of_decide_eq_true facts
  exact ⟨p, q, x, start, there, waits, fun ms p' later keeps' =>
    resolution_stranded start run keeps there waits lost later keeps'⟩

end

end SocksProxy
