import SocksProxy.Lib.Links
import SocksProxy.Lib.Run
import SocksProxy.Server

/-!
# socks5nio.c and mng_nio.c: the pools of connections

Both files have the same pool of `struct socks5`, threaded through `next`.
`held` counts the references that the rest of the program has to each struct;
it may go on as long as it has one, and gives each up once.
-/

namespace SocksProxy

open Lib

/-- `struct socks5` with its link. -/
structure Struct where
  next : Option Nat
  record : Socks5

def Struct.refer (st : Struct) (n : Nat) : Struct :=
  { st with record := { st.record with references := n } }

/-- `pool`, `pool_size` and the structs that are allocated. -/
structure PoolHeap where
  pool : Option Nat
  poolSize : Nat
  structs : Nat → Option Struct

/-- `socks5_new` and `mng_new`; `malloc` is what it returns. -/
def PoolHeap.new (isSocks : Bool) (clientFd : Int) (malloc : Option Nat) (s : PoolHeap) :
    Result (Option Nat × PoolHeap) :=
  let made (a : Nat) : Struct := ⟨none, newRecord isSocks a clientFd []⟩
  match s.pool with
  | none =>
    match malloc with
    | none => .ok (none, s)
    | some a => .ok (some a, { s with structs := Function.update s.structs a (some (made a)) })
  | some a =>
    match s.structs a with
    | none => .error .useAfterFree
    | some ret =>
      .ok (some a, { s with
        pool := ret.next, structs := Function.update s.structs a (some (made a)) })

def PoolHeap.socks5New := PoolHeap.new true
def PoolHeap.mngNew := PoolHeap.new false

/-- `socks5_destroy` and `mng_destroy`. -/
def PoolHeap.destroy (p : Option Nat) (s : PoolHeap) : Result PoolHeap :=
  match p with
  | none => .ok s
  | some a =>
    match s.structs a with
    | none => .error .useAfterFree
    | some st =>
      if st.record.references = 1 then
        if s.poolSize < maxPool then
          .ok ⟨some a, s.poolSize + 1, Function.update s.structs a (some { st with next := s.pool })⟩
        else .ok { s with structs := Function.update s.structs a none }
      else
        let left := st.refer (st.record.references - 1)
        .ok { s with structs := Function.update s.structs a (some left) }

def PoolHeap.socks5Destroy := PoolHeap.destroy
def PoolHeap.mngDestroy := PoolHeap.destroy

/-- `ATTACHMENT(key)->references += 1` for the socket of the origin. -/
def PoolHeap.hold (a : Nat) (s : PoolHeap) : Result PoolHeap :=
  match s.structs a with
  | none => .error .useAfterFree
  | some st =>
    let more := st.refer (st.record.references + 1)
    .ok { s with structs := Function.update s.structs a (some more) }

inductive PoolEvent
  | new (clientFd : Int) (malloc : Option Nat)
  | hold (a : Nat)
  | destroy (a : Nat)

structure Holding where
  heap : PoolHeap
  held : Nat → Nat

def Holding.empty : Holding := ⟨⟨none, 0, fun _ => none⟩, fun _ => 0⟩

/-- `malloc` returns no block that is in use, and only references that are held are used. -/
def PoolEvent.Allowed (s : Holding) : PoolEvent → Prop
  | .new _ malloc => ∀ a, malloc = some a → s.heap.structs a = none
  | .hold a | .destroy a => 0 < s.held a

def PoolEvent.apply (isSocks : Bool) (s : Holding) : PoolEvent → Result Holding
  | .new clientFd malloc => do
    let r ← s.heap.new isSocks clientFd malloc
    match r.1 with
    | none => .ok { s with heap := r.2 }
    | some a => .ok ⟨r.2, Function.update s.held a 1⟩
  | .hold a => do
    let heap ← s.heap.hold a
    .ok ⟨heap, Function.update s.held a (s.held a + 1)⟩
  | .destroy a => do
    let heap ← s.heap.destroy (some a)
    .ok ⟨heap, Function.update s.held a (s.held a - 1)⟩

def PoolEvent.Step (isSocks : Bool) (s : Holding) (e : PoolEvent) (t : Holding) : Prop :=
  e.Allowed s ∧ e.apply isSocks s = .ok t

/-- The pool is the list `l`. -/
def PoolHeap.Lists (s : PoolHeap) (l : List Nat) : Prop :=
  Linked s.structs Struct.next s.pool l

/-! ## What is promised -/

structure Holding.SoundPool (isSocks : Bool) (s : Holding) (l : List Nat) : Prop where
  lists : s.heap.Lists l
  nodup : l.Nodup
  size : s.heap.poolSize = l.length
  most : s.heap.poolSize ≤ maxPool
  unused : ∀ a ∈ l, s.held a = 0
  safe : ∀ e : PoolEvent, e.Allowed s → ∃ t, e.apply isSocks s = .ok t

/-- What one event does to the structs: one is put on the list or freed with its last
reference, and put on the list if there is room. -/
structure PoolEvent.Fair (s t : Holding) (e : PoolEvent) : Prop where
  listed : ∀ l l', s.heap.Lists l → t.heap.Lists l' → ∀ a ∈ l', a ∉ l → e = .destroy a ∧ s.held a = 1
  freed : ∀ a, s.heap.structs a ≠ none → t.heap.structs a = none → e = .destroy a ∧ s.held a = 1
  kept : ∀ l l' a, s.heap.Lists l → t.heap.Lists l' → e = .destroy a → s.held a = 1 →
    l.length < maxPool → a ∈ l'

/-- A creation finds a struct on the list. -/
def PoolEvent.Reuses (s : Holding) : PoolEvent → Prop
  | .new .. => s.heap.pool ≠ none
  | .hold _ | .destroy _ => False

instance (s : Holding) : (e : PoolEvent) → Decidable (e.Reuses s)
  | .new .. => inferInstanceAs (Decidable (s.heap.pool ≠ none))
  | .hold _ | .destroy _ => inferInstanceAs (Decidable False)

/-! ## The list, whatever the counter -/

section
variable {isSocks : Bool} {s t : Holding} {e : PoolEvent} {l : List Nat} {a : Nat} {st : Struct}

/-- What every run keeps: the counter is the length or more. -/
structure Holding.Threaded (s : Holding) (l : List Nat) : Prop where
  lists : s.heap.Lists l
  nodup : l.Nodup
  least : l.length ≤ s.heap.poolSize
  most : s.heap.poolSize ≤ maxPool
  unused : ∀ a ∈ l, s.held a = 0
  counted : ∀ a, 0 < s.held a →
    ∃ st, s.heap.structs a = some st ∧ st.record.references = s.held a

theorem empty_threaded : Holding.empty.Threaded [] where
  lists := .nil
  nodup := List.nodup_nil
  least := Nat.le_refl _
  most := Nat.zero_le _
  unused := fun _ member => nomatch member
  counted := fun _ held => absurd held (Nat.lt_irrefl 0)

/-- What an event does to the pool of the server's state. -/
def PoolEvent.pool (s : Holding) (p : Pool) : PoolEvent → Pool
  | .new _ malloc =>
    match p.take malloc with
    | none => p
    | some r => r.2
  | .hold _ => p
  | .destroy a => if s.held a = 1 then p.put a else p

/-- An event keeps the list threaded, and does to it what it does to the server's pool. -/
structure Threads (s t : Holding) (e : PoolEvent) (l l' : List Nat) : Prop where
  threaded : t.Threaded l'
  pool : ⟨t.heap.poolSize, l'⟩ = e.pool s ⟨s.heap.poolSize, l⟩
  freed : ∀ a, s.heap.structs a ≠ none → t.heap.structs a = none → e = .destroy a ∧ s.held a = 1

theorem update_alive {memory : Nat → Option Struct} {v : Option Struct} {b : Nat} (some : v ≠ none)
    (alive : memory b ≠ none) : Function.update memory a v b ≠ none := by
  by_cases same : b = a
  · subst same
    rwa [Function.update_self]
  · rwa [Function.update_of_ne same]

/-- The structs that are held stay as they are when another one changes. -/
theorem counted_update (threaded : s.Threaded l) {v : Option Struct} {n : Nat}
    (here : 0 < n → ∃ st, v = some st ∧ st.record.references = n) (b : Nat)
    (held : 0 < Function.update s.held a n b) :
    ∃ st, Function.update s.heap.structs a v b = some st ∧
      st.record.references = Function.update s.held a n b := by
  by_cases same : b = a
  · subst same
    simpa using here (by simpa using held)
  · rw [Function.update_of_ne same] at held ⊢
    rw [Function.update_of_ne same]
    exact threaded.counted b held

theorem new_threads {clientFd : Int} {malloc : Option Nat} (threaded : s.Threaded l)
    (step : (PoolEvent.new clientFd malloc).Step isSocks s t) :
    ∃ l', Threads s t (.new clientFd malloc) l l' := by
  obtain ⟨fresh, done⟩ := step
  obtain ⟨r, made, done⟩ := bind_eq_ok.mp done
  rcases linked_iff.mp threaded.lists with
    ⟨empty, rfl⟩ | ⟨a, b, rest, first, here, rfl, linked⟩
  · cases malloc with
    | none =>
      simp only [PoolHeap.new, empty, Except.ok.injEq] at made
      subst made
      cases done
      exact ⟨[], threaded, rfl, fun a alive freed => absurd freed alive⟩
    | some a =>
      simp only [PoolHeap.new, empty, Except.ok.injEq] at made
      subst made
      cases done
      refine ⟨[], ⟨?_, List.nodup_nil, Nat.zero_le _, threaded.most, nofun, ?_⟩, rfl,
        fun b alive freed => absurd freed (update_alive nofun alive)⟩
      · exact linked_iff.mpr (.inl ⟨rfl, rfl⟩)
      · exact counted_update threaded fun _ => ⟨_, rfl, rfl⟩
  · simp only [PoolHeap.new, first, here, Except.ok.injEq] at made
    subst made
    cases done
    obtain ⟨other, nodup⟩ := List.nodup_cons.mp threaded.nodup
    have least := threaded.least
    rw [List.length_cons] at least
    refine ⟨rest, ⟨linked.update other _, nodup, Nat.le_of_succ_le least, threaded.most, ?_, ?_⟩,
      rfl, fun b alive freed => absurd freed (update_alive nofun alive)⟩
    · intro b member
      have ne : b ≠ a := fun same => other (same ▸ member)
      simp only [Function.update_of_ne ne]
      exact threaded.unused b (List.mem_cons_of_mem a member)
    · exact counted_update threaded fun _ => ⟨_, rfl, rfl⟩

theorem hold_threads (threaded : s.Threaded l) (step : (PoolEvent.hold a).Step isSocks s t) :
    Threads s t (.hold a) l l := by
  obtain ⟨held, done⟩ := step
  obtain ⟨heap, more, done⟩ := bind_eq_ok.mp done
  obtain ⟨st, here, counted⟩ := threaded.counted a held
  simp only [PoolHeap.hold, here, Except.ok.injEq] at more
  subst more
  cases done
  have other : a ∉ l := fun member => Nat.ne_of_gt held (threaded.unused a member)
  refine ⟨⟨threaded.lists.update other _, threaded.nodup, threaded.least, threaded.most, ?_, ?_⟩,
    rfl, fun b alive freed => absurd freed (update_alive nofun alive)⟩
  · intro b member
    have ne : b ≠ a := fun same => other (same ▸ member)
    simp only [Function.update_of_ne ne]
    exact threaded.unused b member
  · exact counted_update threaded fun _ => ⟨_, rfl, by simp [Struct.refer, counted]⟩

theorem destroy_threads (threaded : s.Threaded l) (step : (PoolEvent.destroy a).Step isSocks s t) :
    ∃ l', Threads s t (.destroy a) l l' := by
  obtain ⟨held, done⟩ := step
  obtain ⟨heap, less, done⟩ := bind_eq_ok.mp done
  obtain ⟨st, here, counted⟩ := threaded.counted a held
  have other : a ∉ l := fun member => Nat.ne_of_gt held (threaded.unused a member)
  have unused : ∀ n, ∀ b ∈ l, Function.update s.held a n b = 0 := by
    intro n b member
    have ne : b ≠ a := fun same => other (same ▸ member)
    rw [Function.update_of_ne ne]
    exact threaded.unused b member
  simp only [PoolHeap.destroy, here, counted] at less
  cases done
  by_cases last : s.held a = 1
  · rw [if_pos last] at less
    have none : s.held a - 1 = 0 := by omega
    by_cases room : s.heap.poolSize < maxPool
    · rw [if_pos room, Except.ok.injEq] at less
      subst less
      refine ⟨a :: l, ⟨threaded.lists.push other rfl, List.nodup_cons.mpr ⟨other, threaded.nodup⟩,
        ?_, room, ?_, ?_⟩, ?_, fun b alive freed => absurd freed (update_alive nofun alive)⟩
      · have least := threaded.least
        simp only [List.length_cons]
        omega
      · intro b member
        rcases List.mem_cons.mp member with rfl | old
        · simp [none]
        · exact unused _ b old
      · exact counted_update threaded fun some => absurd none (Nat.ne_of_gt some)
      · simp [PoolEvent.pool, last, Pool.put, room]
    · rw [if_neg room, Except.ok.injEq] at less
      subst less
      refine ⟨l, ⟨threaded.lists.update other _, threaded.nodup, threaded.least, threaded.most,
        unused _, ?_⟩, ?_, ?_⟩
      · exact counted_update threaded fun some => absurd none (Nat.ne_of_gt some)
      · simp [PoolEvent.pool, last, Pool.put, room]
      · intro b alive freed
        by_cases same : b = a
        · exact ⟨by rw [same], same ▸ last⟩
        · simp only [Function.update_of_ne same] at freed
          exact absurd freed alive
  · rw [if_neg last, Except.ok.injEq] at less
    subst less
    refine ⟨l, ⟨threaded.lists.update other _, threaded.nodup, threaded.least, threaded.most,
      unused _, ?_⟩, ?_, fun b alive freed => absurd freed (update_alive nofun alive)⟩
    · exact counted_update threaded fun _ => ⟨_, rfl, rfl⟩
    · simp [PoolEvent.pool, last]

theorem step_threads (threaded : s.Threaded l) (step : e.Step isSocks s t) :
    ∃ l', Threads s t e l l' := by
  cases e with
  | new clientFd malloc => exact new_threads threaded step
  | hold a => exact ⟨l, hold_threads threaded step⟩
  | destroy a => exact destroy_threads threaded step

theorem threaded_safe (threaded : s.Threaded l) (allowed : e.Allowed s) :
    ∃ t, e.apply isSocks s = .ok t := by
  cases e with
  | new clientFd malloc =>
    rcases linked_iff.mp threaded.lists with
      ⟨empty, rfl⟩ | ⟨a, b, rest, first, here, rfl, linked⟩
    · cases malloc with
      | none => exact ⟨_, by simp only [PoolEvent.apply, PoolHeap.new, empty, ok_bind]; rfl⟩
      | some a => exact ⟨_, by simp only [PoolEvent.apply, PoolHeap.new, empty, ok_bind]; rfl⟩
    · exact ⟨_, by simp only [PoolEvent.apply, PoolHeap.new, first, here, ok_bind]; rfl⟩
  | hold a =>
    obtain ⟨st, here, -⟩ := threaded.counted a allowed
    exact ⟨_, by simp only [PoolEvent.apply, PoolHeap.hold, here, ok_bind]; rfl⟩
  | destroy a =>
    obtain ⟨st, here, -⟩ := threaded.counted a allowed
    simp only [PoolEvent.apply, PoolHeap.destroy, here]
    split
    · split
      · exact ⟨_, rfl⟩
      · exact ⟨_, rfl⟩
    · exact ⟨_, rfl⟩

/-! ## The counter -/

/-- A creation that takes a struct from the list leaves the counter one too high. -/
theorem threads_size {l' : List Nat} {n : Nat} (threaded : s.Threaded l)
    (threads : Threads s t e l l') (size : s.heap.poolSize = l.length + n) :
    t.heap.poolSize = l'.length + (n + if e.Reuses s then 1 else 0) := by
  have pool := threads.pool
  cases e with
  | new clientFd malloc =>
    have reuses : (PoolEvent.new clientFd malloc).Reuses s ↔ l ≠ [] :=
      not_congr threaded.lists.nil_iff.symm
    simp only [reuses]
    cases l with
    | nil =>
      have same : t.heap.poolSize = s.heap.poolSize ∧ l' = [] := by
        cases malloc <;> simpa [PoolEvent.pool, Pool.take] using pool
      simp [same, size]
    | cons a rest =>
      have shorter : t.heap.poolSize = s.heap.poolSize ∧ l' = rest := by
        simpa [PoolEvent.pool, Pool.take] using pool
      simp only [shorter, size, List.length_cons, ne_eq, reduceCtorEq, not_false_eq_true, if_true]
      omega
  | hold a =>
    have same : t.heap.poolSize = s.heap.poolSize ∧ l' = l := by
      simpa [PoolEvent.pool] using pool
    simp [same, size, PoolEvent.Reuses]
  | destroy a =>
    simp only [PoolEvent.pool, Pool.put] at pool
    rw [if_neg (show ¬(PoolEvent.destroy a).Reuses s from id), Nat.add_zero]
    split at pool
    · split at pool
      · simp only [Pool.mk.injEq] at pool
        simp only [pool, size, List.length_cons]
        omega
      · simp only [Pool.mk.injEq] at pool
        simp [pool, size]
    · simp only [Pool.mk.injEq] at pool
      simp [pool, size]

/-- Over a run the counter exceeds the length by the number of reuses. -/
theorem run_size {ls : List (Holding × PoolEvent)} {u : Holding}
    (run : Run (PoolEvent.Step isSocks) .empty ls u) : ∃ l, u.Threaded l ∧
      u.heap.poolSize = l.length + ls.countP fun p => decide (p.2.Reuses p.1) := by
  induction run with
  | start => exact ⟨[], empty_threaded, rfl⟩
  | next _ step ih =>
    obtain ⟨l, threaded, size⟩ := ih
    obtain ⟨l', threads⟩ := step_threads threaded step
    refine ⟨l', threads.threaded, ?_⟩
    rw [threads_size threaded threads size, List.countP_append]
    simp

theorem threads_fair {l' : List Nat} (threaded : s.Threaded l) (threads : Threads s t e l l')
    (size : s.heap.poolSize = l.length) : e.Fair s t := by
  have pool := threads.pool
  constructor
  · intro m m' lists lists' a member absent
    obtain rfl := lists.unique threaded.lists
    obtain rfl := lists'.unique threads.threaded.lists
    cases e with
    | new clientFd malloc =>
      cases m with
      | nil =>
        have gone : m' = [] := by
          cases malloc <;> simpa [PoolEvent.pool, Pool.take] using congrArg Pool.list pool
        rw [gone] at member
        cases member
      | cons b rest =>
        have shorter : m' = rest := by
          simpa [PoolEvent.pool, Pool.take] using congrArg Pool.list pool
        rw [shorter] at member
        exact absurd (List.mem_cons_of_mem b member) absent
    | hold b =>
      have same : m' = m := congrArg Pool.list pool
      exact absurd (same ▸ member) absent
    | destroy b =>
      simp only [PoolEvent.pool, Pool.put] at pool
      split at pool
      · rename_i last
        split at pool
        · have longer : m' = b :: m := congrArg Pool.list pool
          rw [longer] at member
          have here : a = b := (List.mem_cons.mp member).resolve_right absent
          exact ⟨by rw [here], here ▸ last⟩
        · have same : m' = m := congrArg Pool.list pool
          exact absurd (same ▸ member) absent
      · have same : m' = m := congrArg Pool.list pool
        exact absurd (same ▸ member) absent
  · exact threads.freed
  · intro m m' a lists lists' destroy last room
    obtain rfl := lists.unique threaded.lists
    obtain rfl := lists'.unique threads.threaded.lists
    subst destroy
    simp only [PoolEvent.pool, last, if_true, Pool.put, size, room, Pool.mk.injEq] at pool
    rw [pool.2]
    exact List.mem_cons_self

/-- A run keeps its promises exactly when no creation takes a struct from the list. -/
theorem pool_sound_iff {ls : List (Holding × PoolEvent)} {u : Holding}
    (run : Run (PoolEvent.Step isSocks) .empty ls u) :
    ((∃ l, u.SoundPool isSocks l) ∧ ∀ p ∈ ls, (∃ l, p.1.SoundPool isSocks l) ∧
        ∀ t, p.2.Step isSocks p.1 t → p.2.Fair p.1 t) ↔
      ∀ p ∈ ls, ¬p.2.Reuses p.1 := by
  constructor
  · rintro ⟨⟨l, sound⟩, -⟩ p member reuses
    obtain ⟨m, threaded, size⟩ := run_size run
    obtain rfl := sound.lists.unique threaded.lists
    have none : ls.countP (fun p => decide (p.2.Reuses p.1)) = 0 := by
      have := sound.size
      omega
    have not := List.countP_eq_zero.mp none p member
    exact not (decide_eq_true reuses)
  · intro never
    have sound : ∀ {ms : List (Holding × PoolEvent)} {v : Holding},
        Run (PoolEvent.Step isSocks) .empty ms v → (∀ q ∈ ms, q ∈ ls) →
        ∃ l, v.Threaded l ∧ v.SoundPool isSocks l := by
      intro ms v before sub
      obtain ⟨l, threaded, size⟩ := run_size before
      have none : ms.countP (fun p => decide (p.2.Reuses p.1)) = 0 :=
        List.countP_eq_zero.mpr fun q member => by simpa using never q (sub q member)
      rw [none, Nat.add_zero] at size
      exact ⟨l, threaded, threaded.lists, threaded.nodup, size, threaded.most, threaded.unused,
        fun _ allowed => threaded_safe threaded allowed⟩
    constructor
    · obtain ⟨l, -, here⟩ := sound run fun _ member => member
      exact ⟨l, here⟩
    · intro p member
      obtain ⟨ms, -, before, -, sub⟩ := run.mem_step member
      obtain ⟨l, threaded, here⟩ := sound before sub
      refine ⟨⟨l, here⟩, fun t step => ?_⟩
      obtain ⟨l', threads⟩ := step_threads threaded step
      exact threads_fair threaded threads here.size

end

/-- Two connections come, one of them connects to its origin, and both go. -/
theorem pool_sound_iff_connections : ∃ ls u, Run (PoolEvent.Step true) .empty ls u ∧
    ls.map Prod.snd =
      [.new 5 (some 1), .new 6 (some 2), .hold 2, .destroy 1, .destroy 2, .destroy 2] ∧
    (∃ l, u.SoundPool true l) ∧ ∀ p ∈ ls, (∃ l, p.1.SoundPool true l) ∧
      ∀ t, p.2.Step true p.1 t → p.2.Fair p.1 t := by
  have before : Run (PoolEvent.Step true) .empty [] .empty := .start
  have first := before.next (l := PoolEvent.new 5 (some 1)) ⟨fun _ _ => rfl, rfl⟩
  have second := first.next (l := PoolEvent.new 6 (some 2)) ⟨by rintro a ⟨⟩; rfl, rfl⟩
  have third := second.next (l := PoolEvent.hold 2) ⟨Nat.zero_lt_one, rfl⟩
  have fourth := third.next (l := PoolEvent.destroy 1) ⟨Nat.zero_lt_one, rfl⟩
  have fifth := fourth.next (l := PoolEvent.destroy 2) ⟨Nat.zero_lt_two, rfl⟩
  have run := fifth.next (l := PoolEvent.destroy 2) ⟨Nat.zero_lt_one, rfl⟩
  refine ⟨_, _, run, rfl, (pool_sound_iff run).mpr ?_⟩
  simp only [List.nil_append, List.cons_append, List.forall_mem_cons]
  exact ⟨fun reuses => reuses rfl, fun reuses => reuses rfl, id, id, id, id, List.forall_mem_nil _⟩

/-- The second connection gets the struct of the first: the list is empty again, and
`pool_size` is 1. -/
theorem reused_struct_counted : ¬∀ (isSocks : Bool) (ls : List (Holding × PoolEvent)) (u : Holding),
    Run (PoolEvent.Step isSocks) .empty ls u →
    (∃ l, u.SoundPool isSocks l) ∧ ∀ p ∈ ls, (∃ l, p.1.SoundPool isSocks l) ∧
      ∀ t, p.2.Step isSocks p.1 t → p.2.Fair p.1 t := by
  intro all
  have before : Run (PoolEvent.Step true) .empty [] .empty := .start
  have first := before.next (l := PoolEvent.new 5 (some 1)) ⟨fun _ _ => rfl, rfl⟩
  have second := first.next (l := PoolEvent.destroy 1) ⟨Nat.zero_lt_one, rfl⟩
  have run := second.next (l := PoolEvent.new 6 none) ⟨by rintro a ⟨⟩, rfl⟩
  obtain ⟨⟨l, sound⟩, -⟩ := all true _ _ run
  have empty : l = [] := sound.lists.nil_iff.mpr rfl
  have size := sound.size
  rw [empty] at size
  exact absurd size (by decide)

end SocksProxy
