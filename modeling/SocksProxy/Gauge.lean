import SocksProxy.Ledger

/-!
# The concurrent connections

The metric counts the connections in use that were counted, those that were counted and ended
before their relay did, and it misses the relays that were never counted.
-/

namespace SocksProxy

open Lib

section
variable {others socks mng : List Nat} {dissectors : UInt8} {heap : Heap} {users admins : UserTable}
  {base : Int → Bool} {p p' : Process} {l : Happening} {ls : List (Process × Happening)}
  {k k' : Course} {act : Act} {s t : Session} {e : Event} {o : Outcome} {fd : Int} {key : Nat}
  {x : StateMachine × Socks5} {more : List Call} {marks : List Mark} {P : Session → Prop}

/-! ## What holds of every connection -/

/-- The connections in use all have a property. -/
def Process.All (P : Session → Prop) (p : Process) : Prop :=
  ∀ key x, p.part key = some x → P (view x p.world)

/-- A property that a connection starts with, and that its own steps and those of the others
keep, is a property of all connections. -/
theorem did_all (sound : p.Sound base) (did : p.Did l p')
    (framed : ∀ {s : Session} {d}, P s → s.conn.Framed d → P ⟨s.stm, d⟩)
    (born : ∀ isSocks s, JustAccepted isSocks s → P s)
    (turn : ∀ {e fd o a key x more marks t}, l = .event e fd o a → p.called fd = some x →
      Guarded (view x p.world) (.event e fd o) t → p.Turns key x e fd o more marks t →
      t.Sound → P (view x p.world) → P t)
    (all : p.All P) : p'.All P := by
  have others : ∀ {key key' k' w x}, p.Moves base key k' w → key' ≠ key → p.part key' = some x →
      P (view x w) := by
    intro key key' k' w x moves ne there
    exact framed (all key' x there) (framed_env (moves_rely sound moves ne there))
  cases did with
  | @turn e fd o a key x more marks t called step turns =>
    have moves := turns_moves sound turns
    intro key' x' there
    by_cases same : key' = key
    · subst same
      have leaves : t.leaves = some x' := (move_self _).symm.trans there
      rcases turns.ends with ⟨sound', -⟩ | ⟨left, -⟩
      · rw [sound_leaves sound'] at leaves
        obtain rfl := Option.some.inj leaves
        exact turn rfl called step turns sound' (all _ x turns.there)
      · exact absurd (leaves.symm.trans (left_leaves left)) (by simp)
    · exact others moves same ((move_other _ same).symm.trans there)
  | @arrival isSocks fd o a w s passive offers accepted =>
    obtain ⟨just, world, -, moves⟩ := accepted_moves sound offers accepted
    intro key' x' there
    by_cases same : key' = s.conn.self
    · subst same
      obtain rfl := Option.some.inj ((move_self _).symm.trans there)
      have whole : view (s.stm, s.conn.toSocks5) w = s := by
        rw [← world]
        rfl
      change P (view (s.stm, s.conn.toSocks5) w)
      rw [whole]
      exact born isSocks s just
    · exact others moves same ((move_other _ same).symm.trans there)
  | refusal fd o passive offers refused =>
    obtain ⟨key, absent, moves⟩ := refused_moves sound offers refused
    intro key' x' there
    refine others moves ?_ there
    rintro rfl
    exact absurd (there.symm.trans absent) (by simp)
  | @answer answer k queued x member there =>
    have moves := @resolved_moves base p x k queued answer sound member there
    intro key' x' there'
    by_cases same : key' = k.2
    · subst same
      have leaves : (resolverLeaves queued answer k (view x p.world)).leaves = some x' :=
        (move_self _).symm.trans there'
      have f : (view x p.world).conn.Framed (resolverLeaves queued answer k (view x p.world)).conn := by
        rw [resolverLeaves_eq]
        exact ⟨⟨answer, rfl⟩, fun h => footing_jobs h rfl rfl rfl rfl rfl, fun _ _ => rfl,
          fun _ held => held⟩
      have stm : (resolverLeaves queued answer k (view x p.world)).stm = x.1 := by
        rw [resolverLeaves_eq]
        rfl
      have after := framed (all _ x there) f
      unfold Session.leaves at leaves
      split at leaves
      · cases leaves
      · obtain rfl := Option.some.inj leaves
        rw [stm]
        exact after
    · exact others moves same ((move_other _ same).symm.trans there')

theorem born_calls {isSocks : Bool} (start : JustAccepted isSocks s) : s.conn.calls = [] := by
  obtain ⟨-, -, -, _, _, _, record⟩ := accepted_footing start
  rw [record]
  rfl

theorem born_once (isSocks : Bool) (s : Session) (start : JustAccepted isSocks s) : s.Once := by
  have none' := born_calls start
  refine ⟨?_, fun found => ?_⟩
  · rw [none']
    exact Nat.zero_le 1
  · rw [Socks5.wasFound, none'] at found
    cases found

theorem did_once (sound : p.Sound base) (did : p.Did l p') (once : p.All Session.Once) :
    p'.All Session.Once :=
  did_all sound did once_framed born_once
    (fun _ _ step turns _ once => turns_once sound turns step once) once

/-! ## The census -/

/-- The connection was found established, and counted. -/
def wasCounted (x : StateMachine × Socks5) : Bool := x.2.wasFound

/-- Every connection that was counted is in use, or was relayed to its end, or was abandoned. -/
structure Process.Balanced (p : Process) (ls : List (Process × Happening)) (ids : List Nat) :
    Prop where
  census : p.Census wasCounted ids
  balance : total established ls + total uncounted ls =
    ids.length + total finished ls + total abandoned ls

theorem leaves_counted (t : Session) : (t.leaves.any wasCounted).toNat =
    if .released ∈ t.conn.calls then 0 else if t.conn.wasFound then 1 else 0 := by
  unfold Session.leaves wasCounted
  split
  · rfl
  · rw [Option.any_some]
    cases t.conn.wasFound <;> rfl

/-- What an event counts goes with what it does to the census. -/
theorem turns_balance (sound : p.Sound base) (turns : p.Turns key x e fd o more marks t)
    (step : Guarded (view x p.world) (.event e fd o) t) (once : (view x p.world).Once) :
    established (view x p.world, t) + uncounted (view x p.world, t) +
        ((p.part key).any wasCounted).toNat =
      (t.leaves.any wasCounted).toNat + finished (view x p.world, t) +
        abandoned (view x p.world, t) := by
  have once' := turns_once sound turns step once
  have fresh : established (view x p.world, t) = more.countP Call.isFound := by
    unfold established
    rw [turns_callsOf turns]
  have all : t.conn.calls.countP Call.isFound =
      x.2.calls.countP Call.isFound + more.countP Call.isFound := by
    rw [turns_calls turns, List.countP_append]
  have was : ((p.part key).any wasCounted).toNat = x.2.calls.countP Call.isFound := by
    rw [turns.there, Option.any_some]
    exact found_count once.once
  have now : t.conn.calls.countP Call.isFound = if t.conn.wasFound then 1 else 0 := by
    rw [← found_count once'.once]
    cases t.conn.wasFound <;> rfl
  -- a relay that ends releases its record
  have gone : t.In .done → .released ∈ t.conn.calls := by
    intro done
    rcases turns.ends with ⟨sound', -⟩ | ⟨left, -⟩
    · rcases sound' with ⟨_, -, -, going⟩ | serves
      · exact absurd (.inl done) going
      · exact absurd (done.1.symm.trans serves.mng) (by decide)
    · exact List.count_pos_iff.mp (by rw [left.released]; exact Nat.one_pos)
  rw [leaves_counted, was, fresh]
  simp only [uncounted, finished, abandoned]
  by_cases done : (view x p.world).In .copy ∧ t.In .done
  · have released := gone done.2
    cases found : t.conn.wasFound
    · simp only [found, Bool.false_eq_true, if_false] at now
      simp only [done.1, done.2, released, Bool.false_eq_true, not_false_eq_true, false_and,
        and_self, if_true, if_false]
      omega
    · simp only [found, if_true] at now
      simp only [done.1, done.2, released, not_true_eq_false, and_false, and_self, if_true,
        if_false]
      omega
  · have relay : ¬ ((view x p.world).In .copy ∧ t.In .done ∧ ¬ t.conn.wasFound = true) :=
      fun all => done ⟨all.1, all.2.1⟩
    simp only [relay, done, not_false_eq_true, and_true, if_false]
    cases found : t.conn.wasFound <;> by_cases released : .released ∈ t.conn.calls <;>
      simp only [found, released, Bool.false_eq_true, and_self, and_true, and_false,
        if_true, if_false] at now ⊢ <;> omega

theorem did_balanced {ids : List Nat} (sound : p.Sound base) (did : p.Did l p')
    (once : p.All Session.Once) (balanced : p.Balanced ls ids) :
    ∃ ids', p'.Balanced (ls ++ [(p, l)]) ids' := by
  have balance := balanced.balance
  -- a step that is no event of a connection counts nothing
  have quiet : ∀ {key k' w l}, p.observed l = none →
      (k'.any wasCounted).toNat = ((p.part key).any wasCounted).toNat →
      ∃ ids', (p.become key k' w).Balanced (ls ++ [(p, l)]) ids' := by
    intro key k' w l silent same
    obtain ⟨ids', census, length⟩ := census_move (w := w) balanced.census key k'
    have gain : ∀ f, p.gain l f = 0 := by
      intro f
      unfold Process.gain
      rw [silent]
      rfl
    refine ⟨ids', census, ?_⟩
    simp only [total_step, gain]
    omega
  cases did with
  | @turn e fd o a key x more marks t called step turns =>
    obtain ⟨ids', census, length⟩ := census_move (w := t.conn.toWorld) balanced.census key t.leaves
    have gain : ∀ f, p.gain (.event e fd o a) f = f (view x p.world, t) := by
      intro f
      unfold Process.gain
      rw [turn_observed a called step]
      rfl
    have step' := turns_balance sound turns step (once key x turns.there)
    refine ⟨ids', census, ?_⟩
    simp only [total_step, gain]
    omega
  | @arrival isSocks fd o a w s passive offers accepted =>
    obtain ⟨just, -, absent, -⟩ := accepted_moves sound offers accepted
    refine quiet (passive_observed a passive) ?_
    rw [absent, Option.any_some, wasCounted, Socks5.wasFound, born_calls just]
    rfl
  | @refusal isSocks fd o a w passive offers refused =>
    obtain ⟨key, absent, -⟩ := refused_moves sound offers refused
    rw [← become_none absent]
    refine quiet (passive_observed a passive) ?_
    rw [absent]
  | @answer answer k queued x member there =>
    refine quiet rfl ?_
    have alive : .released ∉ x.2.calls := (sound_accounted (sound.live k.2 x there).2.2).unreleased
    have leaves : (resolverLeaves queued answer k (view x p.world)).leaves =
        some (x.1, { x.2 with originResolution := answer }) := by
      rw [resolverLeaves_eq]
      exact if_neg alive
    rw [leaves, there]
    rfl

/-- The census of every run of the server. -/
theorem run_balanced (start : mainProcess others socks mng dissectors heap users admins = some p)
    (run : Run Process.Step p ls p') (keeps : ∀ q ∈ ls, q.1.KeepsCount q.2) :
    p'.All Session.Once ∧ ∃ ids, p'.Balanced ls ids := by
  refine run_kept (I := fun ls q => q.All Session.Once ∧ ∃ ids, q.Balanced ls ids) start ?_ ?_ run keeps
  · obtain ⟨-, alone⟩ := main_sound start
    exact ⟨fun key x there => absurd (there.symm.trans (alone key)) (by simp), [], census_none alone, rfl⟩
  · rintro ls q l q' before keeps sound did ⟨once, ids, balanced⟩
    exact ⟨did_once sound did once, did_balanced sound did once balanced⟩

/-- In every run the metric of the concurrent connections is the number of the connections in use
that were counted and of those that were abandoned, less the relays that ended uncounted. -/
theorem concurrent_balanced
    (start : mainProcess others socks mng dissectors heap users admins = some p)
    (run : Run Process.Step p ls p') (keeps : ∀ q ∈ ls, q.1.KeepsCount q.2) :
    ∃ ids, p'.Census wasCounted ids ∧ p'.world.metrics.concurrentConnections =
      .ofNat (ids.length + total abandoned ls) - .ofNat (total uncounted ls) := by
  obtain ⟨-, ids, balanced⟩ := run_balanced start run keeps
  refine ⟨ids, balanced.census, ?_⟩
  have ledger := run_ledger start run keeps
  have balance := congrArg UInt64.ofNat balanced.balance
  rw [UInt64.ofNat_add, UInt64.ofNat_add, UInt64.ofNat_add] at balance
  rw [ledger.concurrent, UInt64.ofNat_add]
  grind

/-- The first client is connected, and its connection is all that the metric counts. -/
theorem concurrent_balanced_first : ∃ (p : Process) (ls : List (Process × Happening)) (p' : Process)
    (ids : List Nat), userServer = some p ∧ Run Process.Step p ls p' ∧ p'.Census wasCounted ids ∧
      p'.world.metrics.concurrentConnections = 1 ∧ p'.world.metrics.concurrentConnections =
        .ofNat (ids.length + total abandoned ls) - .ofNat (total uncounted ls) := by
  have plays : (userServer.bind fun p => p.play connects).any
      (fun p => decide (p.world.metrics.concurrentConnections = 1)) = true := by
    decide +kernel
  obtain ⟨p, ls, p', start, run, -, keeps, one⟩ := served rfl plays
  obtain ⟨ids, census, balance⟩ := concurrent_balanced start run keeps
  exact ⟨p, ls, p', ids, start, run, census, of_decide_eq_true one, balance⟩

/-! ## Every relay was counted -/

/-- The event of a step refuses a request for want of a resolver. -/
def Process.Refuses (p : Process) (l : Happening) : Prop :=
  ∃ e fd o a x, l = .event e fd o a ∧ p.called fd = some x ∧
    NoResolver (view x p.world) (.event e fd o)

/-- The course of a SOCKS connection in use, whose relay was established. -/
def Session.Earns (s : Session) : Prop :=
  s.conn.isSocks = true → ∃ k : Course, k.Place s ∧ k.Honest ∧
    (k.phase = .copying → k.established = true)

theorem earns_framed {d : Conn} (earns : s.Earns) (f : s.conn.Framed d) :
    (⟨s.stm, d⟩ : Session).Earns := by
  intro socks
  obtain ⟨answer, record⟩ := f.record
  have same : d.isSocks = s.conn.isSocks := by rw [record]
  obtain ⟨k, place, honest⟩ := earns (same.symm.trans socks)
  exact ⟨k, place_framed place f, honest⟩

theorem born_earns (isSocks : Bool) (s : Session) (start : JustAccepted isSocks s) : s.Earns := by
  intro socks
  have kind : isSocks = true := by
    obtain ⟨-, -, -, _, _, _, record⟩ := accepted_footing start
    rw [record] at socks
    exact socks
  subst kind
  refine ⟨_, accepted_place start, ?_, ?_⟩
  · intro writing
    cases writing
  · intro copying
    cases copying

/-- The step that starts a relay is from a reply that tells a success. -/
theorem earning_step (follows : k.Step act k') (phase' : k'.phase = .copying) :
    k.phase = .copying ∧ k' = k ∨ k.phase = .writing ∧ k.status = .succeeded ∧
      k'.established = k.established := by
  by_cases before : k.phase = .copying
  · cases follows <;> simp_all
  · have writing := step_copying follows before phase'
    rcases writing_step writing follows with ⟨-, rfl⟩ | ⟨-, good, rfl⟩ | ⟨-, -, rfl⟩ | ⟨-, rfl⟩
    · exact absurd phase' before
    · exact .inr ⟨writing, good, rfl⟩
    · cases phase'
    · cases phase'

theorem turns_earns (turns : p.Turns key x e fd o more marks t)
    (step : Guarded (view x p.world) (.event e fd o) t)
    (resolves : ¬ NoResolver (view x p.world) (.event e fd o)) (earns : (view x p.world).Earns) :
    t.Earns := by
  intro socks
  have kind : t.conn.isSocks = x.2.isSocks := by
    rw [turns.acts.isSocks, (taken_world e fd (view x p.world)).2.1]
    rfl
  obtain ⟨k, place, honest, copied⟩ := earns (kind.symm.trans socks)
  obtain ⟨act, k', follows, place', explains⟩ := step_advances place step
  refine ⟨k', place', honest_step honest place resolves follows explains, fun phase' => ?_⟩
  rcases earning_step follows phase' with ⟨before, rfl⟩ | ⟨before, good, same⟩
  · exact copied before
  · rw [same]
    exact (honest before good).2.1

theorem did_earns (sound : p.Sound base) (did : p.Did l p') (resolves : ¬ p.Refuses l)
    (earns : p.All Session.Earns) : p'.All Session.Earns := by
  apply did_all sound did earns_framed born_earns ?_ earns
  intro e fd o a key x more marks t label called step turns _ before
  exact turns_earns turns step (fun refused => resolves ⟨e, fd, o, a, x, label, called, refused⟩) before

/-- A relay that ends was found established. -/
theorem earned_found (earns : s.Earns) (at' : s.In .copy) : s.conn.wasFound = true := by
  obtain ⟨k, place, -, copied⟩ := earns at'.1
  have phase := (copying_phase place).mpr at'
  simp only [Course.Place, phase] at place
  exact List.any_eq_true.mpr ⟨_, (place.2.1.established (copied phase)).2, rfl⟩

theorem did_counted (did : p.Did l p') (earns : p.All Session.Earns) :
    p.gain l uncounted = 0 := by
  have quiet : ∀ {l}, p.observed l = none → p.gain l uncounted = 0 := by
    intro l silent
    unfold Process.gain
    rw [silent]
    rfl
  cases did with
  | @turn e fd o a key x more marks t called step turns =>
    unfold Process.gain
    rw [turn_observed a called step]
    refine if_neg fun relay => relay.2.2 ?_
    have before : x.2.wasFound = true := earned_found (earns key x turns.there) relay.1
    rw [Socks5.wasFound, turns_calls turns, List.any_append]
    exact Bool.or_eq_true_iff.mpr (.inl before)
  | @arrival _ _ _ a _ _ passive => exact quiet (passive_observed a passive)
  | @refusal _ _ _ a _ passive => exact quiet (passive_observed a passive)
  | answer => exact quiet rfl

/-! ## The maximum -/

/-- The maximum is the highest number of concurrent connections so far. -/
structure Metrics.Highest (m : Metrics) (before : List Metrics) : Prop where
  now : m.concurrentConnections ≤ m.maxConcurrentConnections
  past : ∀ m' ∈ before, m'.concurrentConnections ≤ m.maxConcurrentConnections
  reached : m.maxConcurrentConnections = m.concurrentConnections ∨
    ∃ m' ∈ before, m.maxConcurrentConnections = m'.concurrentConnections

def metricsOf (ls : List (Process × Happening)) : List Metrics := ls.map (·.1.world.metrics)

theorem highest_same {m m' : Metrics} {before : List Metrics} (highest : m.Highest before)
    (max : m'.maxConcurrentConnections = m.maxConcurrentConnections)
    (fewer : m'.concurrentConnections ≤ m.concurrentConnections) : m'.Highest (before ++ [m]) where
  now := by
    rw [max]
    exact UInt64.le_trans fewer highest.now
  past := by
    intro n member
    rw [max]
    rcases List.mem_append.mp member with member | member
    · exact highest.past n member
    · obtain rfl := List.mem_singleton.mp member
      exact highest.now
  reached := by
    right
    rw [max]
    rcases highest.reached with same | ⟨n, member, same⟩
    · exact ⟨m, List.mem_append_right _ (.head _), same⟩
    · exact ⟨n, List.mem_append_left _ member, same⟩

theorem highest_rise {m m' : Metrics} {before : List Metrics} (highest : m.Highest before)
    (one : m'.concurrentConnections = m.concurrentConnections + 1)
    (max : m'.maxConcurrentConnections =
      if m.concurrentConnections + 1 > m.maxConcurrentConnections then m.concurrentConnections + 1
      else m.maxConcurrentConnections) : m'.Highest (before ++ [m]) := by
  have above : m.maxConcurrentConnections ≤ m'.maxConcurrentConnections := by
    rw [max]
    split
    · rename_i more
      exact UInt64.le_of_lt more
    · exact UInt64.le_refl _
  constructor
  · rw [max, one]
    split
    · exact UInt64.le_refl _
    · rename_i less
      exact UInt64.not_lt.mp less
  · intro n member
    rcases List.mem_append.mp member with member | member
    · exact UInt64.le_trans (highest.past n member) above
    · obtain rfl := List.mem_singleton.mp member
      exact UInt64.le_trans highest.now above
  · rw [max]
    split
    · exact .inl one.symm
    · right
      rcases highest.reached with same | ⟨n, member, same⟩
      · exact ⟨m, List.mem_append_right _ (.head _), same⟩
      · exact ⟨n, List.mem_append_left _ member, same⟩

/-- The metric as a number, as long as its sums are within it. -/
theorem gauge_value {m : Metrics} {ids : List Nat} (ledger : m.Ledger ls)
    (balanced : p.Balanced ls ids) (none' : total uncounted ls = 0)
    (few : total established ls < 2 ^ 64) :
    m.concurrentConnections.toNat = total established ls - total finished ls ∧
      m.concurrentConnections.toNat = ids.length + total abandoned ls := by
  have balance := balanced.balance
  have below : total finished ls ≤ total established ls := by omega
  have few' : total finished ls < 2 ^ 64 := Nat.lt_of_le_of_lt below few
  have value : m.concurrentConnections.toNat = total established ls - total finished ls := by
    have first : (UInt64.ofNat (total established ls)).toNat = total established ls :=
      UInt64.toNat_ofNat_of_lt few
    have second : (UInt64.ofNat (total finished ls)).toNat = total finished ls :=
      UInt64.toNat_ofNat_of_lt few'
    rw [ledger.concurrent, UInt64.toNat_sub_of_le, first, second]
    rw [UInt64.le_iff_toNat_le, first, second]
    exact below
  exact ⟨value, by omega⟩

/-- A step without a refusal keeps the maximum the highest. -/
theorem highest_step {ids ids' : List Nat} (ledger : p.world.metrics.Ledger ls)
    (ledger' : p'.world.metrics.Ledger (ls ++ [(p, l)])) (balanced : p.Balanced ls ids)
    (balanced' : p'.Balanced (ls ++ [(p, l)]) ids') (none' : total uncounted (ls ++ [(p, l)]) = 0)
    (few : total established (ls ++ [(p, l)]) < 2 ^ 64) (highest : p.world.metrics.Highest (metricsOf ls))
    (metrics : p'.world.metrics = p.world.metrics.marked marks) (gains : p.Marks l marks) :
    p'.world.metrics.Highest (metricsOf (ls ++ [(p, l)])) := by
  have earlier : metricsOf (ls ++ [(p, l)]) = metricsOf ls ++ [p.world.metrics] := by
    unfold metricsOf
    rw [List.map_append]
    rfl
  rw [earlier]
  have sums := @total_step ls established p l
  have ends := @total_step ls finished p l
  have uncounted' := @total_step ls uncounted p l
  obtain ⟨value, -⟩ := gauge_value ledger balanced (by omega) (by omega)
  obtain ⟨value', -⟩ := gauge_value ledger' balanced' none' few
  obtain ⟨within, alone⟩ := gains.single
  have connections := gains.connections
  by_cases one : marks.count .connected = 1
  · have max := marked_rise p.world.metrics one (alone one)
    have advanced := (marked_advanced p.world.metrics marks).concurrent
    rw [← metrics] at max advanced
    rw [one, alone one] at advanced
    exact highest_rise highest (advanced.trans (UInt64.sub_zero _)) max
  · have none' : marks.count .connected = 0 := by omega
    have max := marked_max p.world.metrics none'
    rw [← metrics] at max
    refine highest_same highest max ?_
    rw [UInt64.le_iff_toNat_le]
    omega

/-- What the two metrics tell after a run. -/
structure Process.Gauged (p : Process) (ls : List (Process × Happening)) : Prop where
  concurrent : ∃ ids, p.Census wasCounted ids ∧
    p.world.metrics.concurrentConnections.toNat = ids.length + total abandoned ls
  highest : p.world.metrics.Highest (metricsOf ls)

theorem run_gauged (start : mainProcess others socks mng dissectors heap users admins = some p)
    (run : Run Process.Step p ls p') (keeps : ∀ q ∈ ls, q.1.KeepsCount q.2 ∧ ¬ q.1.Refuses q.2)
    (few : total established ls < 2 ^ 64) :
    p'.All Session.Earns ∧ total uncounted ls = 0 ∧ p'.world.metrics.Highest (metricsOf ls) := by
  induction run with
  | start =>
    obtain ⟨-, alone⟩ := main_sound start
    refine ⟨fun key x there => absurd (there.symm.trans (alone key)) (by simp), rfl, ?_⟩
    rw [main_metrics start]
    exact ⟨UInt64.le_refl _, fun m member => absurd member List.not_mem_nil, .inl rfl⟩
  | @next ls q p' l before step ih =>
    have keeps' : ∀ r ∈ ls, r.1.KeepsCount r.2 ∧ ¬ r.1.Refuses r.2 :=
      fun r member => keeps r (List.mem_append_left _ member)
    have counts : ∀ r ∈ ls, r.1.KeepsCount r.2 := fun r member => (keeps' r member).1
    have counts' : ∀ r ∈ ls ++ [(q, l)], r.1.KeepsCount r.2 := fun r member => (keeps r member).1
    obtain ⟨kept, resolves⟩ := keeps (q, l) (List.mem_append_right _ (.head _))
    have sound := run_sound start before counts
    have did := step_did sound kept step
    have sums := @total_step ls established q l
    obtain ⟨earns, none', highest⟩ := ih keeps' (by omega)
    have all : total uncounted (ls ++ [(q, l)]) = 0 := by
      rw [total_step, none', did_counted did earns]
    obtain ⟨-, ids, balanced⟩ := run_balanced start before counts
    obtain ⟨-, ids', balanced'⟩ := run_balanced start (before.next step) counts'
    obtain ⟨marks, metrics, gains⟩ := did_advanced sound did
    exact ⟨did_earns sound did resolves earns, all, highest_step (run_ledger start before counts)
      (run_ledger start (before.next step) counts') balanced balanced' all few highest metrics gains⟩

/-- In a run that refuses no request for want of a resolver, the metric of the concurrent
connections is exactly the number of the connections in use that were counted and of those that
were abandoned, so it never wraps, and the maximum is the highest value it has had. -/
theorem gauge_exact (start : mainProcess others socks mng dissectors heap users admins = some p)
    (run : Run Process.Step p ls p') (keeps : ∀ q ∈ ls, q.1.KeepsCount q.2 ∧ ¬ q.1.Refuses q.2)
    (few : total established ls < 2 ^ 64) : p'.Gauged ls := by
  obtain ⟨-, none', highest⟩ := run_gauged start run keeps few
  have counts : ∀ r ∈ ls, r.1.KeepsCount r.2 := fun r member => (keeps r member).1
  obtain ⟨-, ids, balanced⟩ := run_balanced start run counts
  exact ⟨⟨ids, balanced.census, (gauge_value (run_ledger start run counts) balanced none' few).2⟩,
    highest⟩

/-- A step counts one connection at most. -/
theorem established_le (start : mainProcess others socks mng dissectors heap users admins = some p)
    (run : Run Process.Step p ls p') (keeps : ∀ q ∈ ls, q.1.KeepsCount q.2) :
    total established ls ≤ ls.length := by
  refine run_kept (I := fun ls _ => total established ls ≤ ls.length) start (Nat.le_refl 0) ?_ run keeps
  intro ls q l q' before keeps sound did few
  obtain ⟨marks, -, gains⟩ := did_advanced sound did
  have single := gains.single.1
  rw [gains.connections] at single
  rw [total_step, List.length_append, List.length_singleton]
  exact Nat.add_le_add few single

/-- An event whose key and thread are made refuses nothing. -/
theorem made_resolves (made : ∀ e fd o a, l = .event e fd o a → o.mallocKey = true ∧ o.pthreadCreate ≠ -1) :
    ¬ p.Refuses l := by
  rintro ⟨e, fd, o, a, x, label, -, fd', o', parser, same, -, -, -, refused⟩
  obtain ⟨key, thread⟩ := made e fd o a label
  obtain ⟨-, -, rfl⟩ := Label.event.inj same
  rcases refused with none' | failed
  · exact absurd (key.symm.trans none') (by decide)
  · exact thread failed

end

/-- The connection of the first client is the one that is counted. -/
theorem gauge_exact_first : ∃ (p : Process) (ls : List (Process × Happening)) (p' : Process),
    userServer = some p ∧ Run Process.Step p ls p' ∧
      p'.world.metrics.concurrentConnections = 1 ∧ p'.Gauged ls := by
  have plays : (userServer.bind fun p => p.play connects).any
      (fun p => decide (p.world.metrics.concurrentConnections = 1)) = true := by
    decide +kernel
  obtain ⟨p, ls, p', start, run, labels, keeps, one⟩ := served rfl plays
  have few : total established ls < 2 ^ 64 := by
    have length : ls.length = 7 := by rw [← List.length_map, labels]; rfl
    have bound := established_le start run keeps
    omega
  have resolves : ∀ q ∈ ls, ¬ q.1.Refuses q.2 := by
    intro q member
    have listed : q.2 ∈ connects := labels ▸ List.mem_map_of_mem member
    apply made_resolves
    intro e fd o a label
    rw [label] at listed
    simp only [connects, greeted, answered, firstArrives, happens, List.mem_append, List.mem_cons,
      List.not_mem_nil, or_false, Happening.event.injEq] at listed
    have fine : o.mallocKey = true ∧ o.pthreadCreate = 0 := by
      rcases listed with (h | h | h) | h | h | h | h <;> (obtain ⟨-, -, rfl, -⟩ := h; exact ⟨rfl, rfl⟩)
    exact ⟨fine.1, by rw [fine.2]; decide⟩
  exact ⟨p, ls, p', start, run, of_decide_eq_true one,
    gauge_exact start run (fun q member => ⟨keeps q member, resolves q member⟩) few⟩

end SocksProxy
