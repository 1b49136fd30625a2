import SocksProxy.Polling

/-!
# Who has which block

The tables of the server and the dissectors of its connections share one heap. Each block that
one of them refers to is live and nobody else's, whatever the others do.
-/

namespace SocksProxy

open Lib

/-- What refers to blocks of the heap. -/
inductive Owner
  | users
  | admins
  | record (key : Nat)

def Process.holds (p : Process) : Owner → Nat → Prop
  | .users => p.world.users.Holds
  | .admins => p.world.admins.Holds
  | .record key => fun c => ∃ x, p.part key = some x ∧ x.2.dissecParser.Needs c

/-- The blocks are apart, the tables hold their accounts, and the dissectors their texts. -/
structure Process.Stores (p : Process) (accounts trusted : List Account) : Prop where
  shared : p.world.heap.Shared p.holds
  users : ∃ ptrs, Tabled p.world.heap p.world.users ptrs accounts
  admins : ∃ ptrs, Tabled p.world.heap p.world.admins ptrs trusted
  dissects : ∀ key x, p.part key = some x → ∃ s, Dissects p.world.heap x.2.dissecParser s

/-- The list that the operations on a table make of its accounts. -/
def listing (accounts : List Account) (us : List ((Heap × UserTable) × TableOp)) : List Account :=
  us.foldl (fun accounts u => u.2.listed accounts) accounts

/-- The blocks of the owners once the connection at `key` has come to `m`. -/
def holdsAt (rest : Owner → Nat → Prop) (key : Nat) (m : Storage) : Owner → Nat → Prop
  | .users => m.2.1.Holds
  | .admins => rest .admins
  | .record k => if k = key then m.2.2.Needs else rest (.record k)

/-- What the touches of the connection at `key` keep, from the heap and the table of `σ` on. -/
structure Arranged (σ : Heap × UserTable) (rest : Owner → Nat → Prop) (key : Nat) (m : Storage) :
    Prop where
  shared : m.1.Shared (holdsAt rest key m)
  dissects : ∃ s, Dissects m.1 m.2.2 s
  next : σ.1.next ≤ m.1.next
  frame : ∀ i c, i ≠ .users → i ≠ .record key → rest i c → m.1.block c = σ.1.block c
  table : ∃ us, Run TableStep σ us (m.1, m.2.1) ∧ ∀ u ∈ us, ∀ optarg, u.2 ≠ .option optarg

section
variable {σ : Heap × UserTable} {rest : Owner → Nat → Prop} {key : Nat} {m m' : Storage}
  {free : Prop} {ptrs : List (Nat × Nat)} {accounts : List Account}

/-! ## One touch -/

/-- The accounts that a run of a table leaves of those at its start. -/
theorem listing_run {τ : Heap × UserTable} {us : List ((Heap × UserTable) × TableOp)}
    (tabled : Tabled σ.1 σ.2 ptrs accounts) (run : Run TableStep σ us τ) :
    ∃ ptrs', Tabled τ.1 τ.2 ptrs' (listing accounts us) := by
  induction run with
  | start => exact ⟨ptrs, tabled⟩
  | next _ step ih =>
    obtain ⟨ptrs', before⟩ := ih
    rw [listing, List.foldl_concat]
    exact step_tabled before step

theorem Arranged.tabled (arranged : Arranged σ rest key m) (tabled : Tabled σ.1 σ.2 ptrs accounts) :
    ∃ ptrs' accounts', Tabled m.1 m.2.1 ptrs' accounts' := by
  obtain ⟨us, run, -⟩ := arranged.table
  obtain ⟨ptrs', left⟩ := listing_run tabled run
  exact ⟨ptrs', _, left⟩

/-- The others of the connection and of the table. -/
theorem holdsAt_other {i : Owner} (users : i ≠ .users) (record : i ≠ .record key) :
    holdsAt rest key m i = rest i := by
  cases i with
  | users => exact absurd rfl users
  | admins => rfl
  | record k =>
    have other : k ≠ key := fun same => record (congrArg Owner.record same)
    simp only [holdsAt, if_neg other]

theorem holdsAt_own : holdsAt rest key m (.record key) = m.2.2.Needs := if_pos rfl

theorem touch_arranged (arranged : Arranged σ rest key m) (tabled : Tabled σ.1 σ.2 ptrs accounts)
    (touch : Touch free m m') : Arranged σ rest key m' := by
  obtain ⟨ptrs', accounts', now⟩ := arranged.tabled tabled
  obtain ⟨shared, dissects, next, frame, us, run, requests⟩ := arranged
  cases touch with
  | @inspect user bytes heap heap' users p p' fed =>
    obtain ⟨s, state⟩ := dissects
    obtain ⟨confined, needs⟩ := consume_minds fed
    obtain ⟨s', state'⟩ := consume_dissects state fed
    have own : holdsAt rest key (heap, users, p) (.record key) = p.Needs := holdsAt_own
    rw [← own] at confined
    have others : ∀ j, j ≠ .record key → holdsAt rest key (heap', users, p') j =
        holdsAt rest key (heap, users, p) j := by
      intro j other
      cases j with
      | users | admins => rfl
      | record k =>
        have other : k ≠ key := fun same => other (congrArg Owner.record same)
        simp only [holdsAt, if_neg other]
    have spared : Spared users heap heap' := by
      refine ⟨fun i bound b here => ?_, fun b late => ?_⟩
      · have held : holdsAt rest key (heap, users, p) .users b := ⟨i, bound, here⟩
        exact shared.frame confined Owner.noConfusion held
      · exact not_not.mp (confined.fresh shared.fresh b late)
    constructor
    case shared =>
      refine shared.step confined (fun c held => ?_) (fun c held => ?_) fun j other c held => ?_
      · rw [holdsAt_own] at held
        exact dissects_live state' held
      · rw [holdsAt_own] at held ⊢
        exact needs c held
      · rwa [others j other] at held
    case dissects => exact ⟨s', state'⟩
    case next => exact Nat.le_trans next confined.next
    case frame =>
      intro i c users' record held
      rw [← frame i c users' record held]
      refine shared.frame confined record ?_
      rwa [holdsAt_other users' record]
    case table =>
      refine ⟨_, run.next (l := .elsewhere heap') ⟨rfl, ?_⟩, ?_⟩
      · intro h same
        obtain rfl := TableOp.elsewhere.inj same
        exact spared
      · intro u member optarg same
        rcases List.mem_append.mp member with member | member
        · exact requests u member optarg same
        · rw [List.mem_singleton.mp member] at same
          cases same
  | @request op heap heap' users users' p isFree requested ran =>
    obtain ⟨confined, grows, ptrs'', after⟩ := request_confined now requested ran
    have confined : heap.Confined (holdsAt rest key (heap, users, p) .users) heap' := confined
    have others : ∀ j, j ≠ .users → holdsAt rest key (heap', users', p) j =
        holdsAt rest key (heap, users, p) j := by
      intro j other
      cases j with
      | users => exact absurd rfl other
      | admins | record k => rfl
    constructor
    case shared =>
      refine shared.step confined (fun c held => ?_) (fun c held => ?_) fun j other c held => ?_
      · exact stored_live after.stored ((holds_blocks after).mp held)
      · exact grows c held
      · rwa [others j other] at held
    case dissects =>
      obtain ⟨s, state⟩ := dissects
      refine ⟨s, dissects_framed state confined.next fun c needed => ?_⟩
      have held : holdsAt rest key (heap, users, p) (.record key) c := by rwa [holdsAt_own]
      exact shared.frame confined Owner.noConfusion held
    case next => exact Nat.le_trans next confined.next
    case frame =>
      intro i c other record held
      rw [← frame i c other record held]
      refine shared.frame confined other ?_
      rwa [holdsAt_other other record]
    case table =>
      refine ⟨_, run.next (l := op) ⟨ran, ?_⟩, ?_⟩
      · intro h same
        rw [same] at requested
        exact requested.elim
      · intro u member optarg same
        rcases List.mem_append.mp member with member | member
        · exact requests u member optarg same
        · rw [List.mem_singleton.mp member] at same
          change op = _ at same
          rw [same] at requested
          exact requested.elim

theorem touches_arranged (arranged : Arranged σ rest key m) (tabled : Tabled σ.1 σ.2 ptrs accounts)
    (touches : Relation.ReflTransGen (Touch free) m m') : Arranged σ rest key m' := by
  induction touches with
  | refl => exact arranged
  | tail _ touch ih => exact touch_arranged ih tabled touch

end

section
variable {others socks mng : List Nat} {dissectors : UInt8} {heap : Heap} {users admins : UserTable}
  {base : Int → Bool} {p p' : Process} {l : Happening} {ls : List (Process × Happening)}
  {accounts trusted : List Account} {key : Nat} {x : StateMachine × Socks5} {t : Session}

/-! ## One step -/

/-- The connection at `key` starts from the blocks that are there. -/
theorem stores_arranged (stores : p.Stores accounts trusted) (there : p.part key = some x) :
    Arranged (p.world.heap, p.world.users) p.holds key
      (p.world.heap, p.world.users, x.2.dissecParser) := by
  have within : ∀ i c, holdsAt p.holds key (p.world.heap, p.world.users, x.2.dissecParser) i c →
      p.holds i c := by
    intro i c held
    cases i with
    | users | admins => exact held
    | record k =>
      by_cases same : k = key
      · subst same
        rw [holdsAt_own] at held
        exact ⟨x, there, held⟩
      · rwa [holdsAt, if_neg same] at held
  exact ⟨stores.shared.mono within, stores.dissects key x there, Nat.le_refl _, fun _ _ _ _ _ => rfl,
    [], .start, fun _ member => absurd member List.not_mem_nil⟩

theorem leaves_some (leaves : t.leaves = some x) : x.2 = t.conn.toSocks5 := by
  unfold Session.leaves at leaves
  split at leaves
  · cases leaves
  · rw [← Option.some.inj leaves]

/-- The blocks after the event of the connection at `key`. -/
theorem turn_stores {free : Prop} {c : Conn} (stores : p.Stores accounts trusted)
    (there : p.part key = some x)
    (storage : c.storage = (p.world.heap, p.world.users, x.2.dissecParser))
    (admins : t.conn.admins = p.world.admins) (touches : c.Touches free t.conn) :
    ∃ us, Run TableStep (p.world.heap, p.world.users) us (t.conn.heap, t.conn.users) ∧
      (∀ u ∈ us, ∀ optarg, u.2 ≠ .option optarg) ∧
      (p.become key t.leaves t.conn.toWorld).Stores (listing accounts us) trusted := by
  obtain ⟨ptrs, tabled⟩ := stores.users
  unfold Conn.Touches at touches
  rw [storage] at touches
  have arranged := touches_arranged (stores_arranged stores there) tabled touches
  obtain ⟨shared, dissects, next, frame, us, run, requests⟩ := arranged
  refine ⟨us, run, requests, ?_⟩
  have part : ∀ {k x'}, (p.become key t.leaves t.conn.toWorld).part k = some x' →
      k = key ∧ x'.2 = t.conn.toSocks5 ∨ k ≠ key ∧ p.part k = some x' := by
    intro k x' there'
    by_cases same : k = key
    · subst same
      exact .inl ⟨rfl, leaves_some ((move_self _).symm.trans there')⟩
    · exact .inr ⟨same, (move_other _ same).symm.trans there'⟩
  constructor
  case shared =>
    refine shared.mono fun i c held => ?_
    cases i with
    | users => exact held
    | admins =>
      change t.conn.admins.Holds c at held
      rwa [admins] at held
    | record k =>
      obtain ⟨x', there', needed⟩ := held
      rcases part there' with ⟨rfl, same⟩ | ⟨other, before⟩
      · rw [holdsAt_own]
        rwa [same] at needed
      · rw [holdsAt, if_neg other]
        exact ⟨x', before, needed⟩
  case users => exact listing_run tabled run
  case admins =>
    obtain ⟨ptrs', held⟩ := stores.admins
    refine ⟨ptrs', ?_⟩
    change Tabled t.conn.heap t.conn.admins ptrs' trusted
    rw [admins]
    exact tabled_framed held shared.fresh fun c holds => frame .admins c Owner.noConfusion
      Owner.noConfusion holds
  case dissects =>
    intro k x' there'
    rcases part there' with ⟨rfl, same⟩ | ⟨other, before⟩
    · rw [same]
      exact dissects
    · obtain ⟨s, state⟩ := stores.dissects k x' before
      refine ⟨s, dissects_framed state next fun c needed => ?_⟩
      refine frame (.record k) c Owner.noConfusion ?_ ⟨x', before, needed⟩
      exact fun same => other (Owner.record.inj same)

/-- A step that leaves the heap and the tables alone, and that brings dissectors that need nothing. -/
theorem stores_same (stores : p.Stores accounts trusted) (heap : p'.world.heap = p.world.heap)
    (users : p'.world.users = p.world.users) (admins : p'.world.admins = p.world.admins)
    (part : ∀ k x', p'.part k = some x' →
      (∃ x, p.part k = some x ∧ x'.2.dissecParser = x.2.dissecParser) ∨
        ∃ d, x'.2.dissecParser = dissecParserInit d) : p'.Stores accounts trusted := by
  constructor
  case shared =>
    rw [heap]
    refine stores.shared.mono fun i c held => ?_
    cases i with
    | users =>
      change p'.world.users.Holds c at held
      rwa [users] at held
    | admins =>
      change p'.world.admins.Holds c at held
      rwa [admins] at held
    | record k =>
      obtain ⟨x', there, needed⟩ := held
      rcases part k x' there with ⟨x, before, same⟩ | ⟨d, same⟩
      · rw [same] at needed
        exact ⟨x, before, needed⟩
      · rw [same] at needed
        simp [DissecParser.Needs, dissecParserInit] at needed
  case users =>
    rw [heap, users]
    exact stores.users
  case admins =>
    rw [heap, admins]
    exact stores.admins
  case dissects =>
    intro k x' there
    rw [heap]
    rcases part k x' there with ⟨x, before, same⟩ | ⟨d, same⟩
    · rw [same]
      exact stores.dissects k x before
    · rw [same]
      exact ⟨_, init_holds _ d⟩

theorem did_stores (sound : p.Sound base) (did : p.Did l p') (stores : p.Stores accounts trusted) :
    ∃ us, Run TableStep (p.world.heap, p.world.users) us (p'.world.heap, p'.world.users) ∧
      (∀ u ∈ us, ∀ optarg, u.2 ≠ .option optarg) ∧ p'.Stores (listing accounts us) trusted := by
  have still : ∀ {q : Process}, q.world.heap = p.world.heap → q.world.users = p.world.users →
      q.Stores accounts trusted → ∃ us,
        Run TableStep (p.world.heap, p.world.users) us (q.world.heap, q.world.users) ∧
          (∀ u ∈ us, ∀ optarg, u.2 ≠ .option optarg) ∧ q.Stores (listing accounts us) trusted := by
    intro q heap users after
    rw [heap, users]
    exact ⟨[], .start, fun _ member => absurd member List.not_mem_nil, after⟩
  cases did with
  | @turn e fd o a key x more marks t called step turns =>
    obtain ⟨stm, record, world⟩ := taken_world e fd (view x p.world)
    have same : ((view x p.world).taken e fd).conn.heap = p.world.heap ∧
        ((view x p.world).taken e fd).conn.users = p.world.users ∧
        ((view x p.world).taken e fd).conn.admins = p.world.admins := by
      rw [world]
      split <;> exact ⟨rfl, rfl, rfl⟩
    have storage : ((view x p.world).taken e fd).conn.storage =
        (p.world.heap, p.world.users, x.2.dissecParser) := by
      unfold Conn.storage
      rw [same.1, same.2.1, record]
      rfl
    exact turn_stores stores turns.there storage (turns.acts.admins.trans same.2.2) turns.acts.touches
  | @arrival isSocks fd o a w s passive offers accepted =>
    obtain ⟨n, addr, self, rest, sel, -, -, rfl, world, -⟩ := passiveAccept_accepted sound.span accepted
    have same : w.heap = p.world.heap ∧ w.users = p.world.users ∧ w.admins = p.world.admins := by
      rw [world]
      cases isSocks <;> exact ⟨rfl, rfl, rfl⟩
    refine still same.1 same.2.1 (stores_same stores same.1 same.2.1 same.2.2 fun k x' there => ?_)
    by_cases here : k = self
    · subst here
      obtain rfl := Option.some.inj ((move_self _).symm.trans there)
      exact .inr ⟨_, rfl⟩
    · exact .inl ⟨x', (move_other _ here).symm.trans there, rfl⟩
  | @refusal isSocks fd o a w passive offers refused =>
    obtain ⟨sel, pool, world, -⟩ :=
      passiveAccept_refused sound.span (fun n addr => offers.fresh n addr) refused
    have same : w.heap = p.world.heap ∧ w.users = p.world.users ∧ w.admins = p.world.admins := by
      rw [world]
      cases isSocks <;> exact ⟨rfl, rfl, rfl⟩
    exact still same.1 same.2.1
      (stores_same stores same.1 same.2.1 same.2.2 fun k x' there => .inl ⟨x', there, rfl⟩)
  | @answer answer k queued x member there =>
    have same : (resolverLeaves queued answer k (view x p.world)).conn.heap = p.world.heap ∧
        (resolverLeaves queued answer k (view x p.world)).conn.users = p.world.users ∧
        (resolverLeaves queued answer k (view x p.world)).conn.admins = p.world.admins ∧
        (resolverLeaves queued answer k (view x p.world)).conn.dissecParser = x.2.dissecParser := by
      rw [resolverLeaves_eq]
      exact ⟨rfl, rfl, rfl, rfl⟩
    refine still same.1 same.2.1 (stores_same stores same.1 same.2.1 same.2.2.1 fun j x' there' => ?_)
    by_cases here : j = k.2
    · subst here
      refine .inl ⟨x, there, ?_⟩
      rw [leaves_some ((move_self _).symm.trans there')]
      exact same.2.2.2
    · exact .inl ⟨x', (move_other _ here).symm.trans there', rfl⟩

/-! ## Whole runs -/

/-- The tables that the server starts with: their accounts, and no string of both. -/
structure Stocked (heap : Heap) (users admins : UserTable) (accounts trusted : List Account) :
    Prop where
  held : ∃ ptrs, Tabled heap users ptrs accounts
  held' : ∃ ptrs, Tabled heap admins ptrs trusted
  apart : ∀ c, users.Holds c → ¬admins.Holds c

theorem main_stores (start : mainProcess others socks mng dissectors heap users admins = some p)
    (stocked : Stocked heap users admins accounts trusted) : p.Stores accounts trusted := by
  obtain ⟨sel, -, rfl⟩ := Option.map_eq_some_iff.mp start
  obtain ⟨⟨ptrs, held⟩, ⟨ptrs', held'⟩, apart⟩ := stocked
  constructor
  case shared =>
    constructor
    case fresh => exact fun a late => not_not.mpr (held.fresh a late)
    case live =>
      intro i c holds
      cases i with
      | users => exact stored_live held.stored ((holds_blocks held).mp holds)
      | admins => exact stored_live held'.stored ((holds_blocks held').mp holds)
      | record k =>
        obtain ⟨x, there, -⟩ := holds
        cases there
    case apart =>
      intro i j c holds holds'
      cases i with
      | users =>
        cases j with
        | users => rfl
        | admins => exact absurd holds' (apart c holds)
        | record k =>
          obtain ⟨x, there, -⟩ := holds'
          cases there
      | admins =>
        cases j with
        | users => exact absurd holds (apart c holds')
        | admins => rfl
        | record k =>
          obtain ⟨x, there, -⟩ := holds'
          cases there
      | record k =>
        obtain ⟨x, there, -⟩ := holds
        cases there
  case users => exact ⟨ptrs, held⟩
  case admins => exact ⟨ptrs', held'⟩
  case dissects =>
    intro key x there
    cases there

theorem run_stores (start : mainProcess others socks mng dissectors heap users admins = some p)
    (stocked : Stocked heap users admins accounts trusted) (run : Run Process.Step p ls p')
    (keeps : ∀ q ∈ ls, q.1.KeepsCount q.2) :
    ∃ us, Run TableStep (p.world.heap, p.world.users) us (p'.world.heap, p'.world.users) ∧
      (∀ u ∈ us, ∀ optarg, u.2 ≠ .option optarg) ∧ p'.Stores (listing accounts us) trusted := by
  refine run_kept (I := fun _ q => ∃ us,
    Run TableStep (p.world.heap, p.world.users) us (q.world.heap, q.world.users) ∧
      (∀ u ∈ us, ∀ optarg, u.2 ≠ .option optarg) ∧ q.Stores (listing accounts us) trusted) start ?_ ?_
    run keeps
  · exact ⟨[], .start, fun _ member => absurd member List.not_mem_nil, main_stores start stocked⟩
  · rintro ls q l q' before keeps sound did ⟨us, first, requests, stores⟩
    obtain ⟨us', second, requests', stores'⟩ := did_stores sound did stores
    refine ⟨us ++ us', first.append second, fun u member => ?_, ?_⟩
    · rcases List.mem_append.mp member with member | member
      · exact requests u member
      · exact requests' u member
    · unfold listing at stores' ⊢
      rwa [List.foldl_append]

end

end SocksProxy
