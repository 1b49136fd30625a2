import SocksProxy.Lib.Live

/-!
# A heap that several owners share

Code that changes only the blocks of its owner, and allocates new ones, leaves the blocks of
every other owner as they are, and no two owners ever have a block in common.
-/

namespace SocksProxy.Lib

/-- Of the blocks that were there only those of `own` changed. -/
structure Heap.Confined (own : Nat → Prop) (h h' : Heap) : Prop where
  next : h.next ≤ h'.next
  frame : ∀ c < h.next, ¬own c → h'.block c = h.block c
  fresh : h.Fresh → h'.Fresh

section
variable {h h' h'' : Heap} {own own' : Nat → Prop} {p : Ptr} {b n i : Nat} {x : UInt8}

theorem Heap.Confined.refl (own : Nat → Prop) (h : Heap) : h.Confined own h :=
  ⟨Nat.le_refl _, fun _ _ _ => rfl, id⟩

/-- What is changed afterwards is the owner's, or new. -/
theorem Heap.Confined.trans (first : h.Confined own h') (second : h'.Confined own' h'')
    (within : ∀ c < h.next, own' c → own c) : h.Confined own h'' where
  next := Nat.le_trans first.next second.next
  frame := by
    intro c low other
    have low' := Nat.lt_of_lt_of_le low first.next
    rw [second.frame c low' fun mine => other (within c low mine), first.frame c low other]
  fresh := fun fresh => second.fresh (first.fresh fresh)

theorem Heap.Confined.mono (confined : h.Confined own h') (within : ∀ c, own c → own' c) :
    h.Confined own' h' :=
  ⟨confined.next, fun c low other => confined.frame c low fun mine => other (within c mine),
    confined.fresh⟩

/-! ## The calls -/

theorem store_confined (stored : h.store p i x = .ok h') : h.Confined (fun c => p = some c) h' := by
  obtain ⟨next, live⟩ := store_live stored
  obtain ⟨⟨a, bytes⟩, loaded, written⟩ := bind_eq_ok.mp stored
  obtain ⟨rfl, -⟩ := load_live loaded
  dsimp only at written
  split at written
  · obtain rfl := Except.ok.inj written
    refine ⟨Nat.le_refl _, fun c _ other => ?_, fun fresh c late here => ?_⟩
    · exact Function.update_of_ne (fun same => other (congrArg some same.symm)) _ _
    · exact fresh c late ((live c).mp here)
  · cases written

theorem free_confined (freed : h.free p = .ok h') : h.Confined (fun c => p = some c) h' := by
  obtain ⟨next, live⟩ := free_live freed
  refine ⟨Nat.le_of_eq next.symm, fun c _ other => ?_, fun fresh c late here => ?_⟩
  · cases p with
    | none =>
      obtain rfl := Except.ok.inj freed
      rfl
    | some a =>
      simp only [Heap.free] at freed
      split at freed
      · cases freed
      · obtain rfl := Except.ok.inj freed
        exact Function.update_of_ne (fun same => other (congrArg some same.symm)) _ _
  · rw [next] at late
    exact fresh c late ((live c).mp here).1

theorem malloc_confined (h : Heap) (n : Nat) : h.Confined (fun _ => False) (h.malloc n).2 := by
  obtain ⟨next, live⟩ := malloc_live h n
  refine ⟨Nat.le_succ _, fun c low _ => Function.update_of_ne (Nat.ne_of_lt low) _ _, fun fresh => ?_⟩
  refine fresh.of_live (by omega) fun c here => ?_
  rcases (live c).mp here with rfl | old
  · exact .inl (by omega)
  · exact .inr old

theorem strdup_confined (h : Heap) (s : List UInt8) : h.Confined (fun _ => False) (h.strdup s).2 := by
  refine ⟨Nat.le_succ _, fun c low _ => Function.update_of_ne (Nat.ne_of_lt low) _ _, fun fresh => ?_⟩
  refine fresh.of_live (Nat.le_succ _) fun c here => ?_
  rcases live_update.mp here with ⟨rfl, -⟩ | ⟨-, old⟩
  · exact .inl (Nat.lt_succ_self _)
  · exact .inr old

theorem realloc_confined (grown : h.realloc p n = .ok (b, h')) :
    h.Confined (fun c => p = some c) h' := by
  obtain ⟨a, rfl, -, next, live⟩ := realloc_live grown
  obtain ⟨⟨a', bytes⟩, loaded, copied⟩ := bind_eq_ok.mp grown
  obtain ⟨same, -⟩ := load_live loaded
  obtain rfl := Option.some.inj same
  obtain ⟨-, rfl⟩ := Prod.mk.inj (Except.ok.inj copied)
  refine ⟨Nat.le_succ _, fun c low other => ?_, fun fresh => ?_⟩
  · change Function.update (Function.update h.block a none) h.next _ c = h.block c
    rw [Function.update_of_ne (Nat.ne_of_lt low),
      Function.update_of_ne fun same => other (congrArg some same.symm)]
  · refine fresh.of_live (Nat.le_succ _) fun c here => ?_
    rcases (live c).mp here with rfl | ⟨old, -⟩
    · exact .inl (Nat.lt_succ_self _)
    · exact .inr old

end

/-! ## The owners -/

/-- The blocks that each owner holds are live, and nobody else's. -/
structure Heap.Shared {ι : Type} (h : Heap) (holds : ι → Nat → Prop) : Prop where
  fresh : h.Fresh
  live : ∀ i c, holds i c → h.Live c
  apart : ∀ i j c, holds i c → holds j c → i = j

section
variable {ι : Type} {h h' : Heap} {holds holds' : ι → Nat → Prop} {i j : ι} {c : Nat}

theorem Heap.Shared.low (shared : h.Shared holds) (held : holds i c) : c < h.next := by
  by_contra late
  exact shared.fresh c (Nat.le_of_not_lt late) (shared.live i c held)

theorem Heap.Shared.mono (shared : h.Shared holds) (within : ∀ i c, holds' i c → holds i c) :
    h.Shared holds' :=
  ⟨shared.fresh, fun i c held => shared.live i c (within i c held),
    fun i j c held held' => shared.apart i j c (within i c held) (within j c held')⟩

/-- The blocks of the others are left as they were. -/
theorem Heap.Shared.frame (shared : h.Shared holds) (confined : h.Confined (holds i) h')
    (other : j ≠ i) (held : holds j c) : h'.block c = h.block c :=
  confined.frame c (shared.low held) fun mine => other (shared.apart j i c held mine)

/-- One owner goes on with what it has and with new blocks; the others keep at most what they have. -/
theorem Heap.Shared.step (shared : h.Shared holds) (confined : h.Confined (holds i) h')
    (live : ∀ c, holds' i c → h'.Live c) (own : ∀ c, holds' i c → holds i c ∨ h.next ≤ c)
    (others : ∀ j, j ≠ i → ∀ c, holds' j c → holds j c) : h'.Shared holds' := by
  have alone : ∀ j c, j ≠ i → holds' i c → ¬holds' j c := by
    intro j c other mine theirs
    have held := others j other c theirs
    rcases own c mine with before | late
    · exact other (shared.apart j i c held before)
    · exact absurd (shared.low held) (Nat.not_lt.mpr late)
  constructor
  case fresh => exact confined.fresh shared.fresh
  case live =>
    intro j c held
    by_cases same : j = i
    · exact live c (same ▸ held)
    · unfold Heap.Live
      rw [shared.frame confined same (others j same c held)]
      exact shared.live j c (others j same c held)
  case apart =>
    intro j k c held held'
    by_cases first : j = i
    · by_cases second : k = i
      · exact first.trans second.symm
      · exact absurd held' (alone k c second (first ▸ held))
    · by_cases second : k = i
      · exact absurd held (alone j c first (second ▸ held'))
      · exact shared.apart j k c (others j first c held) (others k second c held')

end

end SocksProxy.Lib
