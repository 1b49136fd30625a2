import Mathlib.Data.List.Count
import SocksProxy.Process
import SocksProxy.Tenure

/-!
# What the connections of a process share

The invariant of the server: each record in use is a sound session with two
descriptors of its own, every open descriptor and every item has its owner, and a
released record is in a pool at most once. A step moves one record and leaves
the others what they rely on.
-/

namespace SocksProxy

open Lib

def Socks5.Has (c : Socks5) (fd : Int) : Prop := fd = c.clientFd ∨ fd = c.originFd ∧ fd ≠ -1

/-- The record at `key` is in use, and the descriptor is its own. -/
def Process.Has (p : Process) (key : Nat) (fd : Int) : Prop :=
  ∃ x, p.part key = some x ∧ x.2.Has fd

/-- The released records. -/
def World.pooled (w : World) : List Nat := w.socksPool.list ++ w.mngPool.list

/-- The resolver threads of a record that have not ended, and the jobs that they left. -/
def World.outstanding (w : World) (key : Nat) (fd : Int) : Nat :=
  w.resolvers.count (fd, key) + w.sel.resolutionJobs.count fd

/-- `base` are the descriptors that were open before the first connection. -/
structure Process.Sound (base : Int → Bool) (p : Process) : Prop where
  span : p.world.sel.fdSize = itemsMaxSize + 1
  nought : base (-1) = false
  method : p.world.authMethod = 0x00 ∨ p.world.authMethod = 0x02
  strays : p.world.strays = []
  live : ∀ key x, p.part key = some x → x.2.self = key ∧ key ≠ 0 ∧ (view x p.world).Sound
  used : ∀ fd, (p.world.sel.fds fd).used = true →
    base fd = true ∧ ((p.world.sel.fds fd).owner = (.socksPassive, 0) ∨
        (p.world.sel.fds fd).owner = (.mngPassive, 0)) ∨
      ∃ key x, p.part key = some x ∧ (p.world.sel.fds fd).owner = (x.2.handler, key)
  isOpen : ∀ fd, p.world.isOpen fd = true ↔ base fd = true ∨ ∃ key, p.Has key fd
  apart : ∀ fd key key', p.Has key fd → p.Has key' fd → key = key'
  based : ∀ fd key, p.Has key fd → base fd = false
  pooled : p.world.pooled.Nodup
  unpooled : ∀ key ∈ p.world.pooled, p.part key = none ∧ key ≠ 0
  resolvers : ∀ k ∈ p.world.resolvers, ∃ x, p.part k.2 = some x ∧ k.1 = x.2.clientFd
  jobs : ∀ fd ∈ p.world.sel.resolutionJobs, ∃ key x, p.part key = some x ∧ fd = x.2.clientFd
  outstanding : ∀ key x, p.part key = some x → p.world.outstanding key x.2.clientFd ≤ 1 ∧
    (0 < p.world.outstanding key x.2.clientFd → (view x p.world).In .requestResolv)

/-- The record at `key` becomes `k'` (`none` once it is released) and the world becomes `w`,
by a step that is its own. -/
structure Process.Moves (base : Int → Bool) (p : Process) (key : Nat)
    (k' : Option (StateMachine × Socks5)) (w : World) : Prop where
  span : w.sel.fdSize = p.world.sel.fdSize
  method : w.authMethod = 0x00 ∨ w.authMethod = 0x02
  strays : w.strays = []
  negative : w.isOpen (-1) = false
  outside : ∀ fd, fd = -1 ∨ base fd = true ∨ (∃ key', key' ≠ key ∧ p.Has key' fd) →
    w.sel.fds fd = p.world.sel.fds fd ∧ w.isOpen fd = p.world.isOpen fd
  used : ∀ fd, (w.sel.fds fd).used = true →
    (p.world.sel.fds fd).used = true ∧ (w.sel.fds fd).owner = (p.world.sel.fds fd).owner ∧
        ((w.sel.fds fd).data = key → p.part key = none) ∨
      ∃ y, k' = some y ∧ (w.sel.fds fd).owner = (y.2.handler, key)
  opened : ∀ fd, w.isOpen fd = true →
    p.world.isOpen fd = true ∧ ¬ p.Has key fd ∨ ∃ y, k' = some y ∧ y.2.Has fd
  own : ∀ y, k' = some y → (y.2.self = key ∧ key ≠ 0 ∧ (view y w).Sound) ∧
    ∀ fd, y.2.Has fd → base fd = false ∧ ∀ key', key' ≠ key → ¬ p.Has key' fd
  pooled : w.pooled.Nodup
  unpooled : ∀ r ∈ w.pooled, r = key ∧ key ≠ 0 ∧ k' = none ∨ r ≠ key ∧ r ∈ p.world.pooled
  resolvers : ∀ k ∈ w.resolvers, k ∈ p.world.resolvers ∧ k.2 ≠ key ∨
    k.2 = key ∧ ∃ y, k' = some y ∧ k.1 = y.2.clientFd
  jobs : ∀ fd ∈ w.sel.resolutionJobs, fd ∈ p.world.sel.resolutionJobs ∧ ¬ p.Has key fd ∨
    ∃ y, k' = some y ∧ fd = y.2.clientFd
  elsewhere : ∀ key', key' ≠ key → ∀ fd, p.Has key' fd →
    w.outstanding key' fd = p.world.outstanding key' fd
  outstanding : ∀ y, k' = some y → w.outstanding key y.2.clientFd ≤ 1 ∧
    (0 < w.outstanding key y.2.clientFd → (view y w).In .requestResolv)

abbrev Process.become (p : Process) (key : Nat) (k' : Option (StateMachine × Socks5)) (w : World) :
    Process :=
  p.move key k' w

section
variable {base : Int → Bool} {p : Process} {key key' : Nat} {x : StateMachine × Socks5} {fd : Int}
  {k' : Option (StateMachine × Socks5)} {w : World}

/-! ## What the invariant says of one record -/

theorem has_ne (sound : p.Sound base) (has : p.Has key fd) : fd ≠ -1 := by
  obtain ⟨x, there, rfl | ⟨-, ne⟩⟩ := has
  · obtain ⟨-, -, live⟩ := sound.live key x there
    obtain ⟨_, _, footing, -⟩ := sound_footing live
    exact valid_ne footing.client.1
  · exact ne

theorem negative_closed (sound : p.Sound base) : p.world.isOpen (-1) = false := by
  by_contra there
  rw [Bool.not_eq_false] at there
  rcases (sound.isOpen _).mp there with based | ⟨key, has⟩
  · exact nomatch based.symm.trans sound.nought
  · exact has_ne sound has rfl

theorem has_open (sound : p.Sound base) (has : p.Has key fd) : p.world.isOpen fd = true :=
  (sound.isOpen fd).mpr (.inr ⟨key, has⟩)

theorem holds_has (sound : p.Sound base) (there : p.part key = some x)
    (held : (view x p.world).conn.Holds fd) : x.2.Has fd := by
  obtain ⟨-, -, live⟩ := sound.live key x there
  have accounted := sound_accounted live
  rcases accounted.own fd held with client | origin
  · exact .inl client
  · refine .inr ⟨origin, ?_⟩
    rintro rfl
    exact nomatch (accounted.isOpen _ held).symm.trans (negative_closed sound)

/-- An item of a record is for one of its descriptors. -/
theorem owner_has (sound : p.Sound base) (there : p.part key = some x)
    (used : (p.world.sel.fds fd).used = true)
    (owner : (p.world.sel.fds fd).owner = (x.2.handler, key)) : p.Has key fd := by
  obtain ⟨self, -, -⟩ := sound.live key x there
  exact ⟨x, there, holds_has sound there ⟨used, (congrArg Prod.snd owner).trans self.symm⟩⟩

theorem used_open (sound : p.Sound base) (used : (p.world.sel.fds fd).used = true) :
    p.world.isOpen fd = true := by
  rcases sound.used fd used with ⟨based, -⟩ | ⟨key, x, there, owner⟩
  · exact (sound.isOpen fd).mpr (.inl based)
  · exact has_open sound (owner_has sound there used owner)

/-! ## What a move leaves the others -/

/-- Every item is on an open descriptor. -/
def World.Tidy (w : World) : Prop := ∀ fd, (w.sel.fds fd).used = true → w.isOpen fd = true

theorem moved_tidy (sound : p.Sound base) (moves : p.Moves base key k' w) : w.Tidy := by
  intro fd used
  rcases moves.used fd used with ⟨before, owner, other⟩ | ⟨y, eq, owner⟩
  · rcases sound.used fd before with ⟨based, -⟩ | ⟨key', x', there', owner'⟩
    · obtain ⟨-, isOpen⟩ := moves.outside fd (.inr (.inl based))
      exact isOpen.trans (used_open sound before)
    · have ne : key' ≠ key := by
        rintro rfl
        exact nomatch there'.symm.trans (other (congrArg Prod.snd (owner.trans owner')))
      obtain ⟨-, isOpen⟩ := moves.outside fd (.inr (.inr ⟨key', ne, owner_has sound there' before owner'⟩))
      exact isOpen.trans (used_open sound before)
  · obtain ⟨⟨self, -, live⟩, -⟩ := moves.own y eq
    exact (sound_accounted live).isOpen fd ⟨used, (congrArg Prod.snd owner).trans self.symm⟩

/-- The other records keep what they rely on. -/
theorem moves_rely (sound : p.Sound base) (moves : p.Moves base key k' w) (ne : key' ≠ key)
    (there : p.part key' = some x) : Rely (view x p.world).conn w := by
  obtain ⟨self, address, live⟩ := sound.live key' x there
  have mine : ∀ fd, fd = x.2.clientFd ∨ fd = x.2.originFd →
      w.sel.fds fd = p.world.sel.fds fd ∧ w.isOpen fd = p.world.isOpen fd := by
    intro fd descriptor
    by_cases minus : fd = -1
    · exact moves.outside fd (.inl minus)
    · exact moves.outside fd (.inr (.inr ⟨key', ne, x, there, descriptor.imp_right fun o => ⟨o, minus⟩⟩))
  constructor
  · exact moves.span
  · rintro fd (client | origin | held)
    · exact (mine fd (.inl client)).1
    · exact (mine fd (.inr origin)).1
    · exact (moves.outside fd (.inr (.inr ⟨key', ne, x, there, holds_has sound there held⟩))).1
  · intro fd used data
    have data : (w.sel.fds fd).data = x.2.self := data
    rcases moves.used fd used with ⟨before, owner, -⟩ | ⟨y, -, owner⟩
    · exact ⟨before, (congrArg Prod.snd owner).symm.trans data⟩
    · exact absurd (self.symm.trans (data.symm.trans (congrArg Prod.snd owner))) ne
  · exact fun fd descriptor => (mine fd descriptor).2
  · exact moves.negative
  · exact moves.method

theorem has_moved (ne : key' ≠ key) : (p.become key k' w).Has key' fd ↔ p.Has key' fd := by
  unfold Process.Has
  rw [move_other k' ne]

theorem has_own : (p.become key k' w).Has key fd ↔ ∃ y, k' = some y ∧ y.2.Has fd := by
  unfold Process.Has
  rw [move_self]

/-- A move keeps the invariant. -/
theorem moves_sound (sound : p.Sound base) (moves : p.Moves base key k' w) :
    (p.become key k' w).Sound base := by
  have others : ∀ {key' x}, key' ≠ key → (p.become key k' w).part key' = some x →
      p.part key' = some x := by
    intro key' x ne there
    rwa [move_other k' ne] at there
  have mine : ∀ {x}, (p.become key k' w).part key = some x → k' = some x := by
    intro x there
    rwa [move_self] at there
  constructor
  case span => exact moves.span.trans sound.span
  case nought => exact sound.nought
  case method => exact moves.method
  case strays => exact moves.strays
  case live =>
    intro key' x there
    by_cases same : key' = key
    · subst same
      exact (moves.own x (mine there)).1
    · obtain ⟨self, address, live⟩ := sound.live key' x (others same there)
      exact ⟨self, address,
        sound_framed live (framed_env (moves_rely sound moves same (others same there)))⟩
  case used =>
    intro fd used
    rcases moves.used fd used with ⟨before, owner, other⟩ | ⟨y, eq, owner⟩
    · rcases sound.used fd before with ⟨based, passive⟩ | ⟨key', x, there, owner'⟩
      · refine .inl ⟨based, ?_⟩
        rw [move_world, owner]
        exact passive
      · have ne : key' ≠ key := by
          rintro rfl
          exact nomatch there.symm.trans (other (congrArg Prod.snd (owner.trans owner')))
        refine .inr ⟨key', x, ?_, owner.trans owner'⟩
        rw [move_other k' ne]
        exact there
    · refine .inr ⟨key, y, ?_, owner⟩
      rw [move_self]
      exact eq
  case isOpen =>
    intro fd
    constructor
    · intro isOpen
      rcases moves.opened fd isOpen with ⟨before, other⟩ | ⟨y, eq, has⟩
      · rcases (sound.isOpen fd).mp before with based | ⟨key', has⟩
        · exact .inl based
        · have ne : key' ≠ key := by
            rintro rfl
            exact other has
          exact .inr ⟨key', (has_moved ne).mpr has⟩
      · exact .inr ⟨key, has_own.mpr ⟨y, eq, has⟩⟩
    · rintro (based | ⟨key', has⟩)
      · obtain ⟨-, isOpen⟩ := moves.outside fd (.inr (.inl based))
        exact isOpen.trans ((sound.isOpen fd).mpr (.inl based))
      · by_cases same : key' = key
        · subst same
          obtain ⟨y, eq, rfl | ⟨rfl, ne⟩⟩ := has_own.mp has
          all_goals
            obtain ⟨⟨-, -, live⟩, -⟩ := moves.own y eq
            obtain ⟨_, _, footing, -⟩ := sound_footing live
          · exact footing.clientOpen
          · exact footing.originOpen ne
        · have has := (has_moved same).mp has
          obtain ⟨-, isOpen⟩ := moves.outside fd (.inr (.inr ⟨key', same, has⟩))
          exact isOpen.trans (has_open sound has)
  case apart =>
    have newcomer : ∀ {fd key'}, (p.become key k' w).Has key fd → key' ≠ key →
        ¬ (p.become key k' w).Has key' fd := by
      intro fd key' has ne has'
      obtain ⟨y, eq, has⟩ := has_own.mp has
      obtain ⟨-, apart⟩ := moves.own y eq
      exact (apart fd has).2 key' ne ((has_moved ne).mp has')
    intro fd key₁ key₂ has₁ has₂
    by_cases same₁ : key₁ = key
    · subst same₁
      by_contra ne
      exact newcomer has₁ (Ne.symm ne) has₂
    · by_cases same₂ : key₂ = key
      · subst same₂
        exact absurd has₁ (newcomer has₂ same₁)
      · exact sound.apart fd key₁ key₂ ((has_moved same₁).mp has₁) ((has_moved same₂).mp has₂)
  case based =>
    intro fd key' has
    by_cases same : key' = key
    · subst same
      obtain ⟨y, eq, has⟩ := has_own.mp has
      obtain ⟨-, apart⟩ := moves.own y eq
      exact (apart fd has).1
    · exact sound.based fd key' ((has_moved same).mp has)
  case pooled => exact moves.pooled
  case unpooled =>
    intro r member
    rcases moves.unpooled r member with ⟨rfl, address, gone⟩ | ⟨ne, before⟩
    · exact ⟨(move_self ..).trans gone, address⟩
    · rw [move_other k' ne]
      exact sound.unpooled r before
  case resolvers =>
    intro k member
    rcases moves.resolvers k member with ⟨before, ne⟩ | ⟨same, y, eq, descriptor⟩
    · rw [move_other k' ne]
      exact sound.resolvers k before
    · rw [same, move_self]
      exact ⟨y, eq, descriptor⟩
  case jobs =>
    intro fd member
    rcases moves.jobs fd member with ⟨before, other⟩ | ⟨y, eq, descriptor⟩
    · obtain ⟨key', x, there, descriptor⟩ := sound.jobs fd before
      have ne : key' ≠ key := by
        rintro rfl
        exact other ⟨x, there, .inl descriptor⟩
      refine ⟨key', x, ?_, descriptor⟩
      rw [move_other k' ne]
      exact there
    · exact ⟨key, y, (move_self ..).trans eq, descriptor⟩
  case outstanding =>
    intro key' x there
    by_cases same : key' = key
    · subst same
      exact moves.outstanding x (mine there)
    · have there := others same there
      rw [move_world, moves.elsewhere key' same x.2.clientFd ⟨x, there, .inl rfl⟩]
      exact sound.outstanding key' x there

end

end SocksProxy
