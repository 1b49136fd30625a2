import Mathlib.Data.List.Nodup
import Mathlib.Logic.Function.Basic

/-!
# Lists threaded through memory

`memory` gives the block at an address, and `link` the address that a block holds.
-/

namespace SocksProxy.Lib

section
variable {α : Type} {memory : Nat → Option α} {link : α → Option Nat} {p : Option Nat}
  {l l' : List Nat} {a : Nat} {b : α}

/-- Following the links from `p` visits `l` and ends at a null pointer. -/
inductive Linked (memory : Nat → Option α) (link : α → Option Nat) : Option Nat → List Nat → Prop
  | nil : Linked memory link none []
  | cons {a : Nat} {b : α} {l : List Nat} : memory a = some b →
      Linked memory link (link b) l → Linked memory link (some a) (a :: l)

theorem Linked.unique (h : Linked memory link p l) (h' : Linked memory link p l') : l = l' := by
  induction h generalizing l' with
  | nil =>
    cases h'
    rfl
  | cons here _ ih =>
    cases h' with
    | cons here' rest' =>
      obtain rfl := Option.some.inj (here.symm.trans here')
      rw [ih rest']

theorem linked_iff : Linked memory link p l ↔ p = none ∧ l = [] ∨
    ∃ a b rest, p = some a ∧ memory a = some b ∧ l = a :: rest ∧
      Linked memory link (link b) rest := by
  constructor
  · intro h
    cases h with
    | nil => exact .inl ⟨rfl, rfl⟩
    | cons here rest => exact .inr ⟨_, _, _, rfl, here, rfl, rest⟩
  · rintro (⟨rfl, rfl⟩ | ⟨a, b, rest, rfl, here, rfl, linked⟩)
    · exact .nil
    · exact .cons here linked

theorem Linked.nil_iff (h : Linked memory link p l) : l = [] ↔ p = none := by
  cases h with
  | nil => exact iff_of_true rfl rfl
  | cons => exact iff_of_false (List.cons_ne_nil _ _) nofun

/-- A block that is not visited may change. -/
theorem Linked.update (h : Linked memory link p l) (other : a ∉ l) (v : Option α) :
    Linked (Function.update memory a v) link p l := by
  induction h with
  | nil => exact .nil
  | cons here _ ih =>
    rw [List.mem_cons, not_or] at other
    exact .cons (by rw [Function.update_of_ne (Ne.symm other.1), here]) (ih other.2)

theorem Linked.push (h : Linked memory link p l) (other : a ∉ l) (links : link b = p) :
    Linked (Function.update memory a (some b)) link (some a) (a :: l) := by
  refine .cons (Function.update_self ..) ?_
  rw [links]
  exact h.update other (some b)

end

end SocksProxy.Lib
