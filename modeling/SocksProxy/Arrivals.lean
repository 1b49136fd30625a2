import SocksProxy.Interleaving

/-!
# The passive sockets

Accepting a connection moves one record too: a new one comes into use with a
descriptor that nobody had, or it goes back to its pool.
-/

namespace SocksProxy

open Lib

section
variable {base : Int → Bool} {p : Process} {isSocks : Bool} {a : Accepted} {w w' : World} {s : Session}

/-! ## What accepting leaves -/

def handlerOf (isSocks : Bool) : FdHandler := if isSocks then .socks5 else .mng

/-- The world with another pool for a kind of connection. -/
def World.withPool (w : World) (isSocks : Bool) (pool : Pool) : World :=
  if isSocks then { w with socksPool := pool } else { w with mngPool := pool }

theorem passiveAccept_refused (span : w.sel.fdSize = itemsMaxSize + 1)
    (closed : ∀ (n : Nat) addr, a.client = some (n, addr) → w.isOpen n = false)
    (h : passiveAccept isSocks a w = .ok (w', none)) :
    ∃ sel pool, w' = { w with sel := sel }.withPool isSocks pool ∧ sel.fds = w.sel.fds ∧
      sel.fdSize = w.sel.fdSize ∧ sel.resolutionJobs = w.sel.resolutionJobs ∧
      (pool = w.pool isSocks ∨ ∃ self rest, (w.pool isSocks).take a.record = some (self, rest) ∧
        pool = rest.put self) := by
  have same : ∃ sel pool, w = { w with sel := sel }.withPool isSocks pool ∧ sel.fds = w.sel.fds ∧
      sel.fdSize = w.sel.fdSize ∧ sel.resolutionJobs = w.sel.resolutionJobs ∧
      (pool = w.pool isSocks ∨ ∃ self rest, (w.pool isSocks).take a.record = some (self, rest) ∧
        pool = rest.put self) := by
    refine ⟨w.sel, w.pool isSocks, ?_, rfl, rfl, rfl, .inl rfl⟩
    cases isSocks <;> rfl
  unfold passiveAccept at h
  split at h
  · obtain rfl := (Prod.mk.inj (Except.ok.inj h)).1
    exact same
  · rename_i fd addr client
    have back : Function.update (Function.update w.isOpen fd true) fd false = w.isOpen := by
      rw [Function.update_idem, ← closed fd addr client]
      exact Function.update_eq_self ..
    simp only [back] at h
    split at h
    · split at h
      · obtain rfl := (Prod.mk.inj (Except.ok.inj h)).1
        exact same
      · rename_i self rest taken
        have taken : (w.pool isSocks).take a.record = some (self, rest) := taken
        obtain ⟨stm, -, h⟩ := bind_eq_ok.mp h
        have full : itemsMaxSize < w.sel.fdSize := by rw [span]; decide
        obtain ⟨-, fds, size, jobs⟩ := register_eq full fd (handlerOf isSocks) opRead self a.realloc
        refine ⟨_, rest.put self, ?_, ?_, size, jobs, .inr ⟨self, rest, taken, rfl⟩⟩
        · cases isSocks with
          | true =>
            simp only [if_true] at h
            split at h
            · exact nomatch (Prod.mk.inj (Except.ok.inj h)).2
            · obtain rfl := (Prod.mk.inj (Except.ok.inj h)).1
              simp only [back]
              rfl
          | false =>
            simp only [Bool.false_eq_true, if_false] at h
            split at h
            · exact nomatch (Prod.mk.inj (Except.ok.inj h)).2
            · obtain rfl := (Prod.mk.inj (Except.ok.inj h)).1
              simp only [back]
              rfl
        · rw [fds, if_neg]
          intro taken'
          cases isSocks with
          | true =>
            simp only [if_true] at h
            split at h
            · exact nomatch (Prod.mk.inj (Except.ok.inj h)).2
            · rename_i failed
              exact failed taken'
          | false =>
            simp only [Bool.false_eq_true, if_false] at h
            split at h
            · exact nomatch (Prod.mk.inj (Except.ok.inj h)).2
            · rename_i failed
              exact failed taken'
    · obtain rfl := (Prod.mk.inj (Except.ok.inj h)).1
      exact same

theorem passiveAccept_accepted (span : w.sel.fdSize = itemsMaxSize + 1)
    (h : passiveAccept isSocks a w = .ok (w', some s)) :
    ∃ fd addr self rest sel, a.client = some (fd, addr) ∧
      (w.pool isSocks).take a.record = some (self, rest) ∧
      s = ⟨{ newStm isSocks with current := none }, ⟨newRecord isSocks self fd addr, w'⟩⟩ ∧
      w' = { w with
        sel := sel
        isOpen := Function.update w.isOpen fd true }.withPool isSocks rest ∧
      sel.fds = Function.update w.sel.fds fd ⟨fd, opRead, handlerOf isSocks, self⟩ ∧
      sel.fdSize = w.sel.fdSize ∧ sel.resolutionJobs = w.sel.resolutionJobs ∧
      invalidFd fd = false ∧ (w.sel.fds fd).used = false := by
  unfold passiveAccept at h
  split at h
  · exact nomatch (Prod.mk.inj (Except.ok.inj h)).2
  · rename_i fd addr client
    simp only at h
    split at h
    · split at h
      · exact nomatch (Prod.mk.inj (Except.ok.inj h)).2
      · rename_i self rest taken
        have taken : (w.pool isSocks).take a.record = some (self, rest) := taken
        obtain ⟨stm, started, h⟩ := bind_eq_ok.mp h
        have stm_eq : stm = { newStm isSocks with current := none } := by
          cases isSocks <;> exact (Except.ok.inj started).symm
        have full : itemsMaxSize < w.sel.fdSize := by rw [span]; decide
        obtain ⟨-, -, -, jobs⟩ := register_eq full fd (handlerOf isSocks) opRead self a.realloc
        cases isSocks with
        | true =>
          simp only [if_true] at h
          split at h
          · rename_i success
            obtain ⟨world, session⟩ := Prod.mk.inj (Except.ok.inj h)
            obtain rfl := world
            obtain rfl := Option.some.inj session
            obtain ⟨valid, unused, size, fds⟩ := register_taken span success
            exact ⟨fd, addr, self, rest, _, client, taken, by rw [stm_eq], rfl, fds, size.trans span.symm,
              jobs, valid, unused⟩
          · exact nomatch (Prod.mk.inj (Except.ok.inj h)).2
        | false =>
          simp only [Bool.false_eq_true, if_false] at h
          split at h
          · rename_i success
            obtain ⟨world, session⟩ := Prod.mk.inj (Except.ok.inj h)
            obtain rfl := world
            obtain rfl := Option.some.inj session
            obtain ⟨valid, unused, size, fds⟩ := register_taken span success
            exact ⟨fd, addr, self, rest, _, client, taken, by rw [stm_eq], rfl, fds, size.trans span.symm,
              jobs, valid, unused⟩
          · exact nomatch (Prod.mk.inj (Except.ok.inj h)).2
    · exact nomatch (Prod.mk.inj (Except.ok.inj h)).2

/-! ## The record -/

theorem become_none {key : Nat} (absent : p.part key = none) : p.become key none w = ⟨w, p.part⟩ := by
  unfold Process.become Crowd.move
  rw [← absent, Function.update_eq_self]

theorem null_absent (sound : p.Sound base) : p.part 0 = none := by
  by_contra there
  obtain ⟨x, there⟩ := Option.ne_none_iff_exists'.mp there
  exact (sound.live 0 x there).2.1 rfl

/-- A record that a pool or `malloc` gives is not in use and in no pool any more. -/
theorem take_record {self : Nat} {rest : Pool} (sound : p.Sound base) (offers : p.Offers a)
    (taken : (p.world.pool isSocks).take a.record = some (self, rest)) :
    self ≠ 0 ∧ p.part self = none ∧ (p.world.withPool isSocks rest).pooled.Nodup ∧
      ∀ r ∈ (p.world.withPool isSocks rest).pooled, r ≠ self ∧ r ∈ p.world.pooled := by
  unfold Pool.take at taken
  split at taken
  · rename_i first others list
    obtain ⟨rfl, rfl⟩ := Prod.mk.inj (Option.some.inj taken)
    have perm : p.world.pooled.Perm (first ::
        (p.world.withPool isSocks { p.world.pool isSocks with list := others }).pooled) := by
      unfold World.pooled
      cases isSocks with
      | true =>
        have list : p.world.socksPool.list = first :: others := list
        rw [list]
        exact .refl _
      | false =>
        have list : p.world.mngPool.list = first :: others := list
        rw [list]
        exact List.perm_middle
    obtain ⟨out, nodup⟩ := List.nodup_cons.mp (perm.nodup_iff.mp sound.pooled)
    obtain ⟨absent, address⟩ := sound.unpooled first (perm.mem_iff.mpr (.head _))
    refine ⟨address, absent, nodup, fun r member => ⟨?_, perm.mem_iff.mpr (.tail _ member)⟩⟩
    rintro rfl
    exact out member
  · obtain ⟨r, record, eq⟩ := Option.map_eq_some_iff.mp taken
    obtain ⟨rfl, rfl⟩ := Prod.mk.inj eq
    obtain ⟨address, absent, socks, mng⟩ := offers.record r record
    have same : (p.world.withPool isSocks (p.world.pool isSocks)).pooled = p.world.pooled := by
      cases isSocks <;> rfl
    rw [same]
    refine ⟨address, absent, sound.pooled, fun r' member => ⟨?_, member⟩⟩
    rintro rfl
    exact (List.mem_append.mp member).elim socks mng

/-! ## The moves -/

theorem sound_ready {self : Nat} (sound : p.Sound base) (address : self ≠ 0)
    (absent : p.part self = none) : p.world.Ready self where
  span := sound.span
  negative := negative_closed sound
  method := sound.method
  fresh := by
    intro fd used data
    rcases sound.used fd used with ⟨-, passive | passive⟩ | ⟨key, x, there, owner⟩
    · exact address (data.symm.trans (congrArg Prod.snd passive))
    · exact address (data.symm.trans (congrArg Prod.snd passive))
    · obtain rfl : key = self := (congrArg Prod.snd owner).symm.trans data
      exact nomatch there.symm.trans absent

/-- An accepted connection is sound. -/
theorem accepted_sound (start : JustAccepted isSocks s) : s.Sound := by
  cases isSocks with
  | true =>
    refine .inl ⟨_, accepted_place start, ⟨rfl, fun on => nomatch on⟩, ?_⟩
    obtain ⟨-, -, stm, -⟩ := accepted_footing start
    have first : s.stm.current = none := by rw [stm]
    rintro (there | there)
    · exact nomatch first.symm.trans there.2
    · exact nomatch first.symm.trans there.2
  | false =>
    obtain ⟨footing, -, -, self, clientFd, clientAddr, record⟩ := accepted_footing start
    have administers := accepted_administers start
    refine .inr ⟨administers.mng, footing, ?_, ?_, ?_, ?_⟩
    · rcases administers.stage with ⟨-, stage⟩ | ⟨-, gone⟩
      · exact stage
      · exact absurd footing.client.holds (gone _)
    · rw [record]
      rfl
    · rw [record]
      rfl
    · rw [record]
      exact List.not_mem_nil

theorem accepted_moves (sound : p.Sound base) (offers : p.Offers a)
    (h : passiveAccept isSocks a p.world = .ok (w', some s)) :
    JustAccepted isSocks s ∧ s.conn.toWorld = w' ∧ p.part s.conn.self = none ∧
      p.Moves base s.conn.self (some (s.stm, s.conn.toSocks5)) w' := by
  obtain ⟨fd, addr, self, rest, sel, client, taken, rfl, world, fds, size, jobs, valid, unused⟩ :=
    passiveAccept_accepted sound.span h
  obtain ⟨address, absent, nodup, pooled⟩ := take_record sound offers taken
  have closed := offers.fresh fd addr client
  have just : JustAccepted isSocks
      ⟨{ newStm isSocks with current := none }, ⟨newRecord isSocks self fd addr, w'⟩⟩ :=
    ⟨a, p.world, w', fd, addr, client, closed, sound_ready sound address absent, h⟩
  have parts : w'.sel = sel ∧ w'.isOpen = Function.update p.world.isOpen fd true ∧
      w'.authMethod = p.world.authMethod ∧ w'.strays = p.world.strays ∧
      w'.resolvers = p.world.resolvers ∧ w'.pooled = (p.world.withPool isSocks rest).pooled := by
    rw [world]
    cases isSocks <;> exact ⟨rfl, rfl, rfl, rfl, rfl, rfl⟩
  obtain ⟨sel', isOpen, method, strays, resolvers, pools⟩ := parts
  subst sel'
  have unheld : ∀ key, ¬ p.Has key fd := fun key has => nomatch (has_open sound has).symm.trans closed
  have unbased : base fd = false := by
    by_contra based
    rw [Bool.not_eq_false] at based
    exact nomatch ((sound.isOpen fd).mpr (.inl based)).symm.trans closed
  have nobody : ∀ f, ¬ p.Has self f := by
    rintro f ⟨x, there, -⟩
    exact nomatch there.symm.trans absent
  have other : ∀ f, f = -1 ∨ base f = true ∨ (∃ key', key' ≠ self ∧ p.Has key' f) → f ≠ (fd : Int) := by
    rintro f foreign rfl
    rcases foreign with minus | based | ⟨key', -, has⟩
    · omega
    · exact nomatch based.symm.trans unbased
    · exact unheld key' has
  refine ⟨just, rfl, absent, ?_⟩
  constructor
  case span => exact size
  case method =>
    rw [method]
    exact sound.method
  case strays => rw [strays, sound.strays]
  case negative =>
    rw [isOpen, Function.update_of_ne (other _ (.inl rfl))]
    exact negative_closed sound
  case outside =>
    intro f foreign
    rw [fds, isOpen, Function.update_of_ne (other f foreign), Function.update_of_ne (other f foreign)]
    exact ⟨rfl, rfl⟩
  case used =>
    intro f used
    by_cases same : f = fd
    · subst same
      refine .inr ⟨_, rfl, ?_⟩
      rw [fds, Function.update_self]
      rfl
    · rw [fds, Function.update_of_ne same] at used ⊢
      exact .inl ⟨used, rfl, fun _ => absent⟩
  case opened =>
    intro f there
    by_cases same : f = fd
    · exact .inr ⟨_, rfl, .inl same⟩
    · rw [isOpen, Function.update_of_ne same] at there
      exact .inl ⟨there, nobody f⟩
  case own =>
    intro y eq
    obtain rfl := Option.some.inj eq
    refine ⟨⟨rfl, address, accepted_sound just⟩, fun f has => ?_⟩
    rcases has with rfl | ⟨bare, ne⟩
    · exact ⟨unbased, fun key' _ => unheld key'⟩
    · exact absurd bare ne
  case pooled =>
    rw [pools]
    exact nodup
  case unpooled =>
    intro r member
    rw [pools] at member
    exact .inr (pooled r member)
  case resolvers =>
    intro k member
    rw [resolvers] at member
    refine .inl ⟨member, ?_⟩
    rintro same
    obtain ⟨x, there, -⟩ := sound.resolvers k member
    exact nomatch there.symm.trans ((congrArg p.part same).trans absent)
  case jobs =>
    intro f member
    rw [jobs] at member
    exact .inl ⟨member, nobody f⟩
  case elsewhere =>
    intro key' _ f _
    unfold World.outstanding
    rw [resolvers, jobs]
  case outstanding =>
    intro y eq
    obtain rfl := Option.some.inj eq
    have threads : p.world.resolvers.count ((fd : Int), self) = 0 := by
      refine List.count_eq_zero.mpr fun member => ?_
      obtain ⟨x, there, -⟩ := sound.resolvers _ member
      exact nomatch there.symm.trans absent
    have none' : p.world.sel.resolutionJobs.count (fd : Int) = 0 := by
      refine List.count_eq_zero.mpr fun member => ?_
      obtain ⟨key', x, there, descriptor⟩ := sound.jobs _ member
      exact unheld key' ⟨x, there, .inl descriptor⟩
    have after : w'.outstanding self fd = 0 := by
      unfold World.outstanding
      rw [resolvers, jobs, threads, none']
    exact ⟨Nat.le_trans (Nat.le_of_eq after) (Nat.zero_le 1), fun positive => by
      have positive : 0 < w'.outstanding self fd := positive
      omega⟩

/-- A connection that is refused leaves a record in its pool at most. -/
theorem refused_moves (sound : p.Sound base) (offers : p.Offers a)
    (h : passiveAccept isSocks a p.world = .ok (w', none)) :
    ∃ key, p.part key = none ∧ p.Moves base key none w' := by
  obtain ⟨sel, pool, world, fds, size, jobs, pools⟩ :=
    passiveAccept_refused sound.span (fun n addr => offers.fresh n addr) h
  have parts : w'.sel = sel ∧ w'.isOpen = p.world.isOpen ∧ w'.authMethod = p.world.authMethod ∧
      w'.strays = p.world.strays ∧ w'.resolvers = p.world.resolvers ∧
      w'.pooled = (p.world.withPool isSocks pool).pooled := by
    rw [world]
    cases isSocks <;> exact ⟨rfl, rfl, rfl, rfl, rfl, rfl⟩
  obtain ⟨sel', isOpen, method, strays, resolvers, pooled⟩ := parts
  subst sel'
  obtain ⟨key, absent, nodup, members⟩ : ∃ key, p.part key = none ∧ w'.pooled.Nodup ∧
      ∀ r ∈ w'.pooled, r = key ∧ key ≠ 0 ∨ r ≠ key ∧ r ∈ p.world.pooled := by
    rw [pooled]
    rcases pools with rfl | ⟨self, rest, taken, rfl⟩
    · have same : (p.world.withPool isSocks (p.world.pool isSocks)).pooled = p.world.pooled := by
        cases isSocks <;> rfl
      rw [same]
      exact ⟨0, null_absent sound, sound.pooled, fun r member =>
        .inr ⟨(sound.unpooled r member).2, member⟩⟩
    · obtain ⟨address, absent, nodup, before⟩ := take_record sound offers taken
      have out : self ∉ (p.world.withPool isSocks rest).pooled :=
        fun member => (before self member).1 rfl
      have put := @puts_sound self (p.world.withPool isSocks rest)
        (p.world.withPool isSocks (rest.put self)) isSocks 1 nodup out (Nat.le_refl 1)
        (by cases isSocks <;> rfl) (by cases isSocks <;> rfl)
      refine ⟨self, absent, put.1, fun r member => ?_⟩
      rcases put.2 r member with ⟨rfl, -⟩ | member
      · exact .inl ⟨rfl, address⟩
      · exact .inr (before r member)
  have nobody : ∀ f, ¬ p.Has key f := by
    rintro f ⟨x, there, -⟩
    exact nomatch there.symm.trans absent
  refine ⟨key, absent, ?_⟩
  constructor
  case span => exact size
  case method =>
    rw [method]
    exact sound.method
  case strays => rw [strays, sound.strays]
  case negative =>
    rw [isOpen]
    exact negative_closed sound
  case outside =>
    intro f _
    rw [fds, isOpen]
    exact ⟨rfl, rfl⟩
  case used =>
    intro f used
    rw [fds] at used ⊢
    exact .inl ⟨used, rfl, fun _ => absent⟩
  case opened =>
    intro f there
    rw [isOpen] at there
    exact .inl ⟨there, nobody f⟩
  case own => exact fun y eq => nomatch eq
  case pooled => exact nodup
  case unpooled =>
    intro r member
    exact (members r member).imp_left fun mine => ⟨mine.1, mine.2, rfl⟩
  case resolvers =>
    intro k member
    rw [resolvers] at member
    refine .inl ⟨member, ?_⟩
    rintro same
    obtain ⟨x, there, -⟩ := sound.resolvers k member
    exact nomatch there.symm.trans ((congrArg p.part same).trans absent)
  case jobs =>
    intro f member
    rw [jobs] at member
    exact .inl ⟨member, nobody f⟩
  case elsewhere =>
    intro key' _ f _
    unfold World.outstanding
    rw [resolvers, jobs]
  case outstanding => exact fun y eq => nomatch eq

end

end SocksProxy
