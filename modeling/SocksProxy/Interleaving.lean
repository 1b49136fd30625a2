import Mathlib.Data.List.Nodup
import SocksProxy.Isolation

/-!
# Each happening moves one record

The events of the records, the events of the passive sockets and the ends of the resolver
threads, one after another in any order: each is a move of one record.
-/

namespace SocksProxy

open Lib

/-- What a session leaves of its record. -/
def Session.leaves (t : Session) : Option (StateMachine × Socks5) :=
  if .released ∈ t.conn.calls then none else some (t.stm, t.conn.toSocks5)

section
variable {base : Int → Bool} {p : Process} {key : Nat} {x : StateMachine × Socks5} {fd : Int}
  {e : Event} {o : Outcome} {s t : Session} {more : List Call} {marks : List Mark}

/-! ## The events of a record -/

theorem sound_leaves (sound : t.Sound) : t.leaves = some (t.stm, t.conn.toSocks5) :=
  if_neg (sound_accounted sound).unreleased

theorem left_leaves (left : t.Left) : t.leaves = none := by
  refine if_pos (List.count_pos_iff.mp ?_)
  rw [left.released]
  exact Nat.one_pos

theorem holds_valid (sound : s.Sound) (held : s.conn.Holds fd) : invalidFd fd = false := by
  obtain ⟨socket, reg, footing, -⟩ := sound_footing sound
  rcases footing.held fd held with rfl | ⟨on, rfl⟩
  · exact footing.client.1
  · exact (footing.origin on).1

/-- What an event may touch is no other record's. -/
theorem owns_apart (sound : p.Sound base) (there : p.part key = some x)
    (fresh : ∀ n : Nat, o.socket = some n → p.world.isOpen n = false)
    (owns : (view x p.world).conn.Owns o fd) :
    fd ≠ -1 ∧ base fd = false ∧ ∀ key', key' ≠ key → ¬ p.Has key' fd := by
  have own : x.2.Has fd → fd ≠ -1 ∧ base fd = false ∧ ∀ key', key' ≠ key → ¬ p.Has key' fd :=
    fun has => ⟨has_ne sound ⟨x, there, has⟩, sound.based fd key ⟨x, there, has⟩,
      fun key' ne has' => ne (sound.apart fd key' key has' ⟨x, there, has⟩)⟩
  rcases owns with client | origin | ⟨n, number, rfl⟩
  · exact own (.inl client)
  · exact own (.inr origin)
  · have closed := fresh n number
    refine ⟨by omega, ?_, fun key' _ has => ?_⟩
    · by_contra based
      rw [Bool.not_eq_false] at based
      exact nomatch ((sound.isOpen n).mpr (.inl based)).symm.trans closed
    · exact nomatch (has_open sound has).symm.trans closed

/-- No other record has an item on what an event may touch. -/
theorem sound_alone (sound : p.Sound base) (there : p.part key = some x)
    (fresh : ∀ n : Nat, o.socket = some n → p.world.isOpen n = false) :
    (view x p.world).conn.Alone o := by
  intro f owns used
  obtain ⟨-, based, other⟩ := owns_apart sound there fresh owns
  rcases sound.used f used with ⟨inBase, -⟩ | ⟨key', x', there', owner⟩
  · exact nomatch inBase.symm.trans based
  · obtain rfl : key' = key := by
      by_contra ne
      exact other key' ne (owner_has sound there' used owner)
    obtain rfl := Option.some.inj (there'.symm.trans there)
    exact ⟨used, (congrArg Prod.snd owner).trans (sound.live _ _ there').1.symm⟩

/-- Before the attempts the events are the client's. -/
theorem reading_client (sound : s.Sound) {state : SocksV5State} (at' : s.In state)
    (early : state ∉ [SocksV5State.requestConnecting, .requestWrite, .copy])
    (held : s.conn.Holds fd) : fd = s.conn.clientFd := by
  have valid := holds_valid sound held
  rcases (sound_accounted sound).own fd held with client | origin
  · exact client
  · rcases sound with ⟨k, place, -, going⟩ | serves
    · exact absurd (origin.trans (place_bare place at' early going)) (valid_ne valid)
    · exact nomatch at'.1.symm.trans serves.mng

/-- REQUEST_RESOLV waits for its job and for nothing else. -/
theorem resolving_block (at' : s.In .requestResolv) (h : handleEvent e o fd s = .ok t) :
    e = .block := by
  obtain ⟨handler, mid, next, picked, -⟩ := socks_event at' h
  cases e with
  | block => rfl
  | read => cases picked
  | write => cases picked

/-- An event of the record at `key` that the selector delivers. -/
structure Process.Turns (p : Process) (key : Nat) (x : StateMachine × Socks5) (e : Event) (fd : Int)
    (o : Outcome) (more : List Call) (marks : List Mark) (t : Session) : Prop where
  there : p.part key = some x
  held : (view x p.world).conn.Holds fd
  job : e = .block → fd ∈ p.world.sel.resolutionJobs
  fresh : ∀ n : Nat, o.socket = some n → p.world.isOpen n = false
  fired : handleEvent e o fd ((view x p.world).taken e fd) = .ok t
  acts : ((view x p.world).taken e fd).conn.Acts ((view x p.world).conn.Owns o) fd
    ((view x p.world).InMng .requestRead) more marks t.conn
  counts : (view x p.world).Counts t o more marks
  ends : t.Sound ∧ .released ∉ more ∨ t.Left ∧ more.count .released = 1

theorem taken_world (e : Event) (fd : Int) (s : Session) :
    (s.taken e fd).stm = s.stm ∧ (s.taken e fd).conn.toSocks5 = s.conn.toSocks5 ∧
      (s.taken e fd).conn.toWorld =
        if e = .block then s.conn.toWorld.withoutJob fd else s.conn.toWorld := by
  cases e <;> exact ⟨rfl, rfl, rfl⟩

/-- The threads and jobs of a record after its event. -/
theorem turns_outstanding (sound : p.Sound base) (turns : p.Turns key x e fd o more marks t) :
    t.conn.toWorld.outstanding key x.2.clientFd ≤ 1 ∧
      (0 < t.conn.toWorld.outstanding key x.2.clientFd → t.In .requestResolv) := by
  obtain ⟨there, held, job, fresh, fired, acts, counts, ends⟩ := turns
  obtain ⟨self, address, live⟩ := sound.live key x there
  obtain ⟨stm, record, world⟩ := taken_world e fd (view x p.world)
  obtain ⟨bound, resolving⟩ := sound.outstanding key x there
  have self' : ((view x p.world).taken e fd).conn.self = key := by
    rw [record]
    exact self
  have after : t.conn.toWorld.outstanding key x.2.clientFd =
      (p.world.resolvers.count (x.2.clientFd, key) +
        (List.replicate (more.count .threadCreated) (fd, key)).count (x.2.clientFd, key)) +
        (if e = .block then p.world.sel.resolutionJobs.erase fd
          else p.world.sel.resolutionJobs).count x.2.clientFd := by
    unfold World.outstanding
    rw [acts.resolvers, acts.jobs, self', world, List.count_append]
    split <;> rfl
  have started : (List.replicate (more.count .threadCreated) (fd, key)).count (x.2.clientFd, key) ≤
      more.count .threadCreated :=
    Nat.le_trans List.count_le_length (Nat.le_of_eq List.length_replicate)
  have client : fd ∈ p.world.sel.resolutionJobs → fd = x.2.clientFd := by
    intro queued
    obtain ⟨key', x', there', descriptor⟩ := sound.jobs fd queued
    have same : key' = key := sound.apart fd key' key ⟨x', there', .inl descriptor⟩
      ⟨x, there, holds_has sound there held⟩
    subst same
    obtain rfl := Option.some.inj (there'.symm.trans there)
    exact descriptor
  unfold World.outstanding at bound resolving
  by_cases at' : (view x p.world).In .requestResolv
  · -- the one job is taken, and no thread is started
    have threads : more.count .threadCreated = 0 := by
      rw [counts.threads, if_neg]
      exact fun both => absurd (in_unique both.1 at') (by decide)
    obtain rfl : e = .block := by
      refine resolving_block ?_ fired
      unfold Session.In
      rw [record, stm]
      exact at'
    have queued := job rfl
    obtain rfl := client queued
    have one : 0 < p.world.sel.resolutionJobs.count x.2.clientFd := List.count_pos_iff.mpr queued
    rw [if_pos rfl, List.count_erase_self] at after
    omega
  · have none' : ¬ 0 < p.world.resolvers.count (x.2.clientFd, key) +
        p.world.sel.resolutionJobs.count x.2.clientFd := fun positive => at' (resolving positive)
    have other : e ≠ .block := by
      intro block
      have queued := job block
      have one : 0 < p.world.sel.resolutionJobs.count x.2.clientFd :=
        List.count_pos_iff.mpr (client queued ▸ queued)
      omega
    rw [if_neg other] at after
    have threads := counts.threads
    split at threads
    · rename_i both
      exact ⟨by omega, fun _ => both.2.1⟩
    · exact ⟨by omega, fun positive => by omega⟩

/-- A released record goes into its pool, or is freed. -/
theorem put_pooled {pool : Pool} {r : Nat} (key : Nat) (member : r ∈ (pool.put key).list) :
    r = key ∨ r ∈ pool.list := by
  unfold Pool.put at member
  split at member
  · exact List.mem_cons.mp member
  · exact .inr member

theorem put_nodup {pool : Pool} {key : Nat} (nodup : pool.list.Nodup) (out : key ∉ pool.list) :
    (pool.put key).list.Nodup := by
  unfold Pool.put
  split
  · exact List.nodup_cons.mpr ⟨out, nodup⟩
  · exact nodup

/-- One release of a record that was in use. -/
theorem puts_sound {w w' : World} {kind : Bool} {n : Nat} (nodup : w.pooled.Nodup)
    (out : key ∉ w.pooled) (once : n ≤ 1) (pool : w'.pool kind = (w.pool kind).puts key n)
    (other : w'.pool (!kind) = w.pool (!kind)) :
    w'.pooled.Nodup ∧ ∀ r ∈ w'.pooled, r = key ∧ n = 1 ∨ r ∈ w.pooled := by
  unfold World.pooled at nodup out ⊢
  rw [List.nodup_append'] at nodup ⊢
  rw [List.mem_append, not_or] at out
  obtain ⟨socks, mng, disjoint⟩ := nodup
  obtain rfl | rfl : n = 0 ∨ n = 1 := by omega
  · have same : w'.socksPool = w.socksPool ∧ w'.mngPool = w.mngPool := by
      cases kind with
      | true => exact ⟨pool, other⟩
      | false => exact ⟨other, pool⟩
    rw [same.1, same.2]
    exact ⟨⟨socks, mng, disjoint⟩, fun r member => .inr member⟩
  · cases kind with
    | true =>
      have first : w'.socksPool = w.socksPool.put key := pool
      have second : w'.mngPool = w.mngPool := other
      rw [first, second]
      refine ⟨⟨put_nodup socks out.1, mng, fun r member => ?_⟩, fun r member => ?_⟩
      · rcases put_pooled key member with rfl | member
        · exact out.2
        · exact disjoint member
      · rcases List.mem_append.mp member with member | member
        · rcases put_pooled key member with rfl | member
          · exact .inl ⟨rfl, rfl⟩
          · exact .inr (List.mem_append_left _ member)
        · exact .inr (List.mem_append_right _ member)
    | false =>
      have first : w'.mngPool = w.mngPool.put key := pool
      have second : w'.socksPool = w.socksPool := other
      rw [first, second]
      refine ⟨⟨socks, put_nodup mng out.2, fun r member member' => ?_⟩, fun r member => ?_⟩
      · rcases put_pooled key member' with rfl | member'
        · exact out.1 member
        · exact disjoint member member'
      · rcases List.mem_append.mp member with member | member
        · exact .inr (List.mem_append_left _ member)
        · rcases put_pooled key member with rfl | member
          · exact .inl ⟨rfl, rfl⟩
          · exact .inr (List.mem_append_right _ member)

theorem turns_moves (sound : p.Sound base) (turns : p.Turns key x e fd o more marks t) :
    p.Moves base key t.leaves t.conn.toWorld := by
  obtain ⟨within, idle⟩ := turns_outstanding sound turns
  obtain ⟨there, held, job, fresh, fired, acts, counts, ends⟩ := turns
  obtain ⟨self, address, live⟩ := sound.live key x there
  obtain ⟨stm, record, world⟩ := taken_world e fd (view x p.world)
  have apart := fun {f} => @owns_apart base p key x f o sound there fresh
  have sel : ((view x p.world).taken e fd).conn.sel.fds = p.world.sel.fds ∧
      ((view x p.world).taken e fd).conn.sel.fdSize = p.world.sel.fdSize := by
    rw [world]
    split <;> exact ⟨rfl, rfl⟩
  have rest : ((view x p.world).taken e fd).conn.isOpen = p.world.isOpen ∧
      ((view x p.world).taken e fd).conn.authMethod = p.world.authMethod ∧
      ((view x p.world).taken e fd).conn.strays = p.world.strays ∧
      ((view x p.world).taken e fd).conn.resolvers = p.world.resolvers ∧
      ((view x p.world).taken e fd).conn.socksPool = p.world.socksPool ∧
      ((view x p.world).taken e fd).conn.mngPool = p.world.mngPool := by
    rw [world]
    split <;> exact ⟨rfl, rfl, rfl, rfl, rfl, rfl⟩
  obtain ⟨slots, size⟩ := sel
  obtain ⟨isOpen, method, strays, threads, socksPool, mngPool⟩ := rest
  have self' : t.conn.self = key := by
    rw [acts.self, record]
    exact self
  have client : t.conn.clientFd = x.2.clientFd := by
    rw [acts.clientFd, record]
    rfl
  have handler : t.conn.handler = x.2.handler := by
    unfold Socks5.handler
    rw [acts.isSocks, record]
    rfl
  have outside : ∀ f, f = -1 ∨ base f = true ∨ (∃ key', key' ≠ key ∧ p.Has key' f) →
      ¬ (view x p.world).conn.Owns o f := by
    rintro f foreign owns
    obtain ⟨ne, based, other⟩ := apart owns
    rcases foreign with minus | inBase | ⟨key', ne', has⟩
    · exact ne minus
    · exact nomatch inBase.symm.trans based
    · exact other key' ne' has
  have minus : t.conn.isOpen (-1) = false := by
    rw [acts.isOpen _ (outside _ (.inl rfl)), isOpen]
    exact negative_closed sound
  -- what is left of the record, if it is still in use
  have leaves : t.Sound ∧ t.leaves = some (t.stm, t.conn.toSocks5) ∨ t.Left ∧ t.leaves = none :=
    ends.imp (fun h => ⟨h.1, sound_leaves h.1⟩) fun h => ⟨h.1, left_leaves h.1⟩
  have keeps : ∀ f, t.conn.Holds f → ∃ y, t.leaves = some y ∧ y.2 = t.conn.toSocks5 := by
    intro f holds
    rcases leaves with ⟨-, eq⟩ | ⟨left, -⟩
    · exact ⟨_, eq, rfl⟩
    · exact absurd holds (left.gone f)
  have has : ∀ f, t.conn.isOpen f = true → f = t.conn.clientFd ∨ f = t.conn.originFd →
      ∃ y, t.leaves = some y ∧ y.2.Has f := by
    intro f there' descriptor
    rcases leaves with ⟨-, eq⟩ | ⟨left, -⟩
    · refine ⟨_, eq, descriptor.imp_right fun origin => ⟨origin, ?_⟩⟩
      rintro rfl
      exact nomatch there'.symm.trans minus
    · rcases descriptor with rfl | rfl
      · exact nomatch there'.symm.trans left.client
      · exact nomatch there'.symm.trans left.origin
  have released : more.count .released ≤ 1 ∧ (more.count .released = 1 → t.leaves = none) := by
    rcases ends with ⟨-, kept⟩ | ⟨left, once⟩
    · rw [List.count_eq_zero.mpr kept]
      exact ⟨Nat.zero_le 1, fun no => nomatch no⟩
    · exact ⟨Nat.le_of_eq once, fun _ => left_leaves left⟩
  have out : key ∉ p.world.pooled := fun member =>
    nomatch there.symm.trans (sound.unpooled key member).1
  have pools : t.conn.toWorld.pooled.Nodup ∧
      ∀ r ∈ t.conn.toWorld.pooled, r = key ∧ more.count .released = 1 ∨ r ∈ p.world.pooled := by
    have own := acts.pool
    have other := acts.otherPool
    rw [acts.self.symm.trans self'] at own
    refine puts_sound sound.pooled out released.1 (own.trans ?_) (other.trans ?_)
    · unfold World.pool
      rw [socksPool, mngPool]
    · unfold World.pool
      rw [socksPool, mngPool]
  have waits : 0 < t.conn.toWorld.outstanding key x.2.clientFd →
      ∃ y, t.leaves = some y ∧ y.2 = t.conn.toSocks5 := by
    intro positive
    rcases leaves with ⟨-, eq⟩ | ⟨left, -⟩
    · exact ⟨_, eq, rfl⟩
    · exact absurd (idle positive) left.idle
  have mine : p.Has key fd := ⟨x, there, holds_has sound there held⟩
  have resolvers : t.conn.resolvers =
      p.world.resolvers ++ List.replicate (more.count .threadCreated) (fd, key) := by
    rw [acts.resolvers, threads, acts.self.symm.trans self']
  have jobs : t.conn.sel.resolutionJobs =
      if e = .block then p.world.sel.resolutionJobs.erase fd else p.world.sel.resolutionJobs := by
    rw [acts.jobs, world]
    split <;> rfl
  constructor
  case span => rw [acts.span, size]
  case method =>
    apply acts.method
    rw [method]
    exact sound.method
  case strays => rw [acts.strays, strays, sound.strays]
  case negative => exact minus
  case outside =>
    intro f foreign
    rw [acts.slots f (outside f foreign), acts.isOpen f (outside f foreign), slots, isOpen]
    exact ⟨rfl, rfl⟩
  case used =>
    intro f used
    by_cases data : (t.conn.sel.fds f).data = key
    · obtain ⟨y, eq, same⟩ := keeps f ⟨used, data.trans self'.symm⟩
      refine .inr ⟨y, eq, ?_⟩
      rw [same, handler]
      rcases acts.used f used with ⟨before, owner⟩ | owner
      · rw [slots] at before owner
        rcases sound.used f before with ⟨-, passive⟩ | ⟨key', x', there', owner'⟩
        · rw [← owner] at passive
          rcases passive with passive | passive
          · exact absurd (data.symm.trans (congrArg Prod.snd passive)) address
          · exact absurd (data.symm.trans (congrArg Prod.snd passive)) address
        · have same' : key' = key :=
            (congrArg Prod.snd (owner.trans owner')).symm.trans data
          subst same'
          obtain rfl := Option.some.inj (there'.symm.trans there)
          exact owner.trans owner'
      · rw [owner]
        refine Prod.ext ?_ (acts.self.symm.trans self')
        rw [record]
        rfl
    · rcases acts.used f used with ⟨before, owner⟩ | owner
      · rw [slots] at before owner
        exact .inl ⟨before, owner, fun same => absurd same data⟩
      · exact absurd ((congrArg Prod.snd owner).trans (acts.self.symm.trans self')) data
  case opened =>
    intro f there'
    rcases acts.opened f there' with ⟨before, stays⟩ | origin
    · rw [isOpen] at before
      by_cases own : p.Has key f
      · refine .inr (has f there' ?_)
        obtain ⟨x', same, descriptor⟩ := own
        obtain rfl := Option.some.inj (same.symm.trans there)
        rcases descriptor with descriptor | ⟨descriptor, -⟩
        · exact .inl (descriptor.trans client.symm)
        · refine .inr (stays ?_)
          rw [record]
          exact descriptor
      · exact .inl ⟨before, own⟩
    · exact .inr (has f there' (.inr origin))
  case own =>
    intro y eq
    rcases leaves with ⟨live', eq'⟩ | ⟨-, none'⟩
    · obtain rfl := Option.some.inj (eq'.symm.trans eq)
      refine ⟨⟨self', address, live'⟩, fun f has' => ?_⟩
      refine (apart ?_).2
      rcases has' with descriptor | ⟨descriptor, ne⟩
      · exact .inl (descriptor.trans client)
      · have before : ((view x p.world).taken e fd).conn.originFd = -1 ∨
            (view x p.world).conn.Owns o ((view x p.world).taken e fd).conn.originFd := by
          rw [record]
          by_cases bare : x.2.originFd = -1
          · exact .inl bare
          · exact .inr (.inr (.inl ⟨rfl, bare⟩))
        rw [descriptor]
        exact (acts.originFd before).resolve_left (descriptor ▸ ne)
    · exact nomatch none'.symm.trans eq
  case pooled => exact pools.1
  case unpooled =>
    intro r member
    rcases pools.2 r member with ⟨rfl, once⟩ | before
    · exact .inl ⟨rfl, address, released.2 once⟩
    · exact .inr ⟨fun same => out (same ▸ before), before⟩
  case resolvers =>
    intro k member
    by_cases same : k.2 = key
    · have descriptor : k.1 = x.2.clientFd := by
        rw [resolvers, List.mem_append, List.mem_replicate] at member
        rcases member with before | ⟨started, rfl⟩
        · obtain ⟨x', there', descriptor⟩ := sound.resolvers k before
          rw [same] at there'
          obtain rfl := Option.some.inj (there'.symm.trans there)
          exact descriptor
        · rw [counts.threads] at started
          split at started
          · rename_i both
            exact reading_client live both.1 (by decide) held
          · exact absurd rfl started
      have eq : k = (x.2.clientFd, key) := Prod.ext descriptor same
      have positive : 0 < t.conn.resolvers.count (x.2.clientFd, key) :=
        List.count_pos_iff.mpr (eq ▸ member)
      obtain ⟨y, eq', record'⟩ := waits (Nat.lt_of_lt_of_le positive (Nat.le_add_right _ _))
      refine .inr ⟨same, y, eq', ?_⟩
      rw [record', client]
      exact descriptor
    · refine .inl ⟨?_, same⟩
      rw [resolvers, List.mem_append, List.mem_replicate] at member
      rcases member with before | ⟨-, rfl⟩
      · exact before
      · exact absurd rfl same
  case jobs =>
    intro f member
    have before : f ∈ p.world.sel.resolutionJobs := by
      rw [jobs] at member
      split at member
      · exact List.mem_of_mem_erase member
      · exact member
    by_cases own : p.Has key f
    · obtain ⟨key', x', there', descriptor⟩ := sound.jobs f before
      have same : key' = key := sound.apart f key' key ⟨x', there', .inl descriptor⟩ own
      subst same
      obtain rfl := Option.some.inj (there'.symm.trans there)
      have positive : 0 < t.conn.sel.resolutionJobs.count x'.2.clientFd :=
        List.count_pos_iff.mpr (descriptor ▸ member)
      obtain ⟨y, eq, record'⟩ := waits (Nat.lt_of_lt_of_le positive (Nat.le_add_left _ _))
      refine .inr ⟨y, eq, ?_⟩
      rw [record', client]
      exact descriptor
    · exact .inl ⟨before, own⟩
  case elsewhere =>
    intro key' ne f has'
    have apart' : f ≠ fd := by
      rintro rfl
      exact ne (sound.apart f key' key has' mine)
    have other : (List.replicate (more.count .threadCreated) (fd, key)).count (f, key') = 0 := by
      rw [List.count_eq_zero, List.mem_replicate]
      exact fun member => ne (congrArg Prod.snd member.2)
    unfold World.outstanding
    rw [resolvers, jobs, List.count_append, other]
    split
    · rw [List.count_erase_of_ne apart']
      rfl
    · rfl
  case outstanding =>
    intro y eq
    rcases leaves with ⟨-, eq'⟩ | ⟨-, none'⟩
    · obtain rfl := Option.some.inj (eq'.symm.trans eq)
      rw [client]
      exact ⟨within, idle⟩
    · exact nomatch none'.symm.trans eq

/-! ## The ends of the resolver threads -/

/-- What a resolver thread leaves, with its job or without it. -/
def resolverLeaves (queued : Bool) (answer : List AddrInfo) (k : Int × Nat) (s : Session) : Session :=
  if queued then resolverEnds answer k s else resolverFails answer k s

theorem resolverLeaves_eq (queued : Bool) (answer : List AddrInfo) (k : Int × Nat) (s : Session) :
    resolverLeaves queued answer k s = ⟨s.stm, { s.conn with
      originResolution := answer
      resolvers := s.conn.resolvers.erase k
      sel := { s.conn.sel with
        resolutionJobs := if queued then k.1 :: s.conn.sel.resolutionJobs
          else s.conn.sel.resolutionJobs } }⟩ := by
  cases queued <;> rfl

theorem resolved_moves {k : Int × Nat} {queued : Bool} {answer : List AddrInfo} (sound : p.Sound base)
    (member : k ∈ p.world.resolvers) (there : p.part k.2 = some x) :
    p.Moves base k.2 (resolverLeaves queued answer k (view x p.world)).leaves
      (resolverLeaves queued answer k (view x p.world)).conn.toWorld := by
  obtain ⟨self, address, live⟩ := sound.live k.2 x there
  obtain ⟨bound, resolving⟩ := sound.outstanding k.2 x there
  have descriptor : k.1 = x.2.clientFd := by
    obtain ⟨x', there', descriptor⟩ := sound.resolvers k member
    obtain rfl := Option.some.inj (there'.symm.trans there)
    exact descriptor
  have same : (x.2.clientFd, k.2) = k := by rw [← descriptor]
  have running : 0 < p.world.resolvers.count k := List.count_pos_iff.mpr member
  rw [resolverLeaves_eq]
  have sound' : (⟨x.1, { (view x p.world).conn with
      originResolution := answer
      resolvers := p.world.resolvers.erase k
      sel := { p.world.sel with
        resolutionJobs := if queued then k.1 :: p.world.sel.resolutionJobs
          else p.world.sel.resolutionJobs } }⟩ : Session).Sound :=
    sound_framed live ⟨⟨answer, rfl⟩, fun h => footing_jobs h rfl rfl rfl rfl rfl, fun _ _ => rfl,
      fun _ held => held⟩
  have leaves := sound_leaves sound'
  have others : ∀ key' fd, key' ≠ k.2 → p.Has key' fd → fd ≠ k.1 := by
    rintro key' fd ne has rfl
    exact ne (sound.apart _ _ _ has ⟨x, there, .inl descriptor⟩)
  constructor
  case span => rfl
  case method => exact sound.method
  case strays => exact sound.strays
  case negative => exact negative_closed sound
  case outside => exact fun _ _ => ⟨rfl, rfl⟩
  case used =>
    intro fd used
    by_cases data : (p.world.sel.fds fd).data = k.2
    · refine .inr ⟨_, leaves, ?_⟩
      rcases sound.used fd used with ⟨-, passive | passive⟩ | ⟨key', x', there', owner⟩
      · exact absurd (data.symm.trans (congrArg Prod.snd passive)) address
      · exact absurd (data.symm.trans (congrArg Prod.snd passive)) address
      · have same' : key' = k.2 := (congrArg Prod.snd owner).symm.trans data
        subst same'
        obtain rfl := Option.some.inj (there'.symm.trans there)
        exact owner
    · exact .inl ⟨used, rfl, fun same => absurd same data⟩
  case opened =>
    intro fd isOpen
    by_cases own : p.Has k.2 fd
    · obtain ⟨x', there', has⟩ := own
      obtain rfl := Option.some.inj (there'.symm.trans there)
      exact .inr ⟨_, leaves, has⟩
    · exact .inl ⟨isOpen, own⟩
  case own =>
    intro y eq
    obtain rfl := Option.some.inj (leaves.symm.trans eq)
    refine ⟨⟨self, address, sound'⟩, fun fd has => ⟨sound.based fd k.2 ⟨x, there, has⟩, fun key' ne has' => ?_⟩⟩
    exact ne (sound.apart fd _ _ has' ⟨x, there, has⟩)
  case pooled => exact sound.pooled
  case unpooled =>
    intro r pooled
    refine .inr ⟨?_, pooled⟩
    rintro rfl
    exact nomatch there.symm.trans (sound.unpooled _ pooled).1
  case resolvers =>
    intro k' member'
    have before : k' ∈ p.world.resolvers := List.mem_of_mem_erase member'
    by_cases mine : k'.2 = k.2
    · refine .inr ⟨mine, _, leaves, ?_⟩
      obtain ⟨x', there', descriptor'⟩ := sound.resolvers k' before
      rw [mine] at there'
      obtain rfl := Option.some.inj (there'.symm.trans there)
      exact descriptor'
    · exact .inl ⟨before, mine⟩
  case jobs =>
    intro fd member'
    by_cases mine : fd = x.2.clientFd
    · exact .inr ⟨_, leaves, mine⟩
    · have before : fd ∈ p.world.sel.resolutionJobs := by
        change fd ∈ (if queued then k.1 :: p.world.sel.resolutionJobs else _) at member'
        split at member'
        · exact (List.mem_cons.mp member').resolve_left fun first => mine (first.trans descriptor)
        · exact member'
      obtain ⟨key', x', there', descriptor'⟩ := sound.jobs fd before
      refine .inl ⟨before, fun own => ?_⟩
      have same' := sound.apart fd _ _ ⟨x', there', .inl descriptor'⟩ own
      subst same'
      obtain rfl := Option.some.inj (there'.symm.trans there)
      exact mine descriptor'
  case elsewhere =>
    intro key' ne fd has
    have apart := others key' fd ne has
    unfold World.outstanding
    have ne' : (fd, key') ≠ k := by
      rintro rfl
      exact ne rfl
    rw [List.count_erase_of_ne ne']
    cases queued with
    | true =>
      have cons := List.count_cons_of_ne (l := p.world.sel.resolutionJobs) apart.symm
      exact congrArg _ cons
    | false => rfl
  case outstanding =>
    intro y eq
    obtain rfl := Option.some.inj (leaves.symm.trans eq)
    have after : (p.world.resolvers.erase k).count (x.2.clientFd, k.2) +
        (if queued then k.1 :: p.world.sel.resolutionJobs
          else p.world.sel.resolutionJobs).count x.2.clientFd ≤
        p.world.outstanding k.2 x.2.clientFd := by
      unfold World.outstanding
      rw [same, List.count_erase_self]
      cases queued with
      | true =>
        rw [if_pos rfl, descriptor, List.count_cons_self]
        omega
      | false =>
        rw [if_neg Bool.false_ne_true]
        omega
    exact ⟨Nat.le_trans after bound, fun positive => resolving (Nat.lt_of_lt_of_le positive after)⟩


end

end SocksProxy
