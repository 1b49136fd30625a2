import SocksProxy.Lib.Heap

/-!
# The blocks that are live

A ledger of the heap: which blocks are allocated and not freed, and what each call
does to that.
-/

namespace SocksProxy.Lib

def Heap.Live (h : Heap) (c : Nat) : Prop := h.block c ≠ none

/-- The numbers from `next` on are not in use. -/
def Heap.Fresh (h : Heap) : Prop := ∀ c, h.next ≤ c → ¬h.Live c

section
variable {h h' : Heap} {p : Ptr} {a b c n i : Nat} {x : UInt8} {v : Option (List UInt8)}

theorem live_update : Heap.Live ⟨Function.update h.block a v, n⟩ c ↔
    c = a ∧ v ≠ none ∨ c ≠ a ∧ h.Live c := by
  unfold Heap.Live
  by_cases same : c = a
  · subst same
    simp
  · simp [same]

theorem load_live {bytes : List UInt8} (loaded : h.load p = .ok (a, bytes)) :
    p = some a ∧ h.Live a := by
  cases p with
  | none => cases loaded
  | some a' =>
    simp only [Heap.load] at loaded
    cases here : h.block a' with
    | none => simp [here] at loaded
    | some bytes' =>
      simp only [here, Except.ok.injEq, Prod.mk.injEq] at loaded
      obtain ⟨rfl, -⟩ := loaded
      exact ⟨rfl, by simp [Heap.Live, here]⟩

theorem store_live (stored : h.store p i x = .ok h') :
    h'.next = h.next ∧ ∀ c, h'.Live c ↔ h.Live c := by
  obtain ⟨⟨a, bytes⟩, loaded, stored⟩ := bind_eq_ok.mp stored
  have live := (load_live loaded).2
  simp only at stored
  by_cases room : i < bytes.length
  · rw [if_pos room, Except.ok.injEq] at stored
    subst stored
    refine ⟨rfl, fun c => live_update.trans ?_⟩
    by_cases same : c = a
    · simp [same, live]
    · simp [same]
  · simp [room] at stored

theorem free_live (freed : h.free p = .ok h') :
    h'.next = h.next ∧ ∀ c, h'.Live c ↔ h.Live c ∧ p ≠ some c := by
  cases p with
  | none =>
    cases freed
    exact ⟨rfl, fun c => by simp⟩
  | some a =>
    simp only [Heap.free] at freed
    cases here : h.block a with
    | none => simp [here] at freed
    | some bytes =>
      simp only [here, Except.ok.injEq] at freed
      subst freed
      refine ⟨rfl, fun c => live_update.trans ?_⟩
      simp [and_comm, eq_comm]

theorem malloc_live (h : Heap) (n : Nat) :
    (h.malloc n).2.next = h.next + 1 ∧ ∀ c, (h.malloc n).2.Live c ↔ c = h.next ∨ h.Live c := by
  refine ⟨rfl, fun c => live_update.trans ?_⟩
  by_cases same : c = h.next
  · simp [same]
  · simp [same]

theorem realloc_live (grown : h.realloc p n = .ok (b, h')) : ∃ a, p = some a ∧ b = h.next ∧
    h'.next = h.next + 1 ∧ ∀ c, h'.Live c ↔ c = h.next ∨ h.Live c ∧ c ≠ a := by
  obtain ⟨⟨a, bytes⟩, loaded, grown⟩ := bind_eq_ok.mp grown
  simp only [Except.ok.injEq, Prod.mk.injEq] at grown
  obtain ⟨rfl, rfl⟩ := grown
  refine ⟨a, (load_live loaded).1, rfl, rfl, fun c => ?_⟩
  unfold Heap.Live
  by_cases same : c = h.next
  · subst same
    simp
  · by_cases old : c = a
    · subst old
      simp [same]
    · simp [same, old]

theorem Heap.Fresh.of_live (fresh : h.Fresh) (more : h.next ≤ h'.next)
    (live : ∀ c, h'.Live c → c < h'.next ∨ h.Live c) : h'.Fresh := by
  intro c late here
  rcases live c here with early | old
  · omega
  · exact fresh c (Nat.le_trans more late) old

end

end SocksProxy.Lib
