/-!
# Faults of a C program

A translated function returns `Result α`: a value, or the way the process
stopped being defined. Every later step of a faulted process is out of scope,
so a fault has no successor state.
-/

namespace SocksProxy.Lib

inductive Fault
  | abort
  | assertion
  | exit
  | nullPointer
  | outOfBounds
  | uninitialised
  | useAfterFree
  | wrongMember
  deriving DecidableEq, Repr

abbrev Result := Except Fault

theorem bind_eq_ok {α β ε : Type} {x : Except ε α} {f : α → Except ε β} {b : β} :
    (x >>= f) = .ok b ↔ ∃ a, x = .ok a ∧ f a = .ok b := by
  rcases x with e | a <;> simp [bind, Except.bind]

@[simp] theorem ok_bind {α β ε : Type} (a : α) (f : α → Except ε β) :
    (Except.ok a >>= f) = f a := rfl

@[simp] theorem error_bind {α β ε : Type} (e : ε) (f : α → Except ε β) :
    (Except.error e >>= f) = .error e := rfl

/-- A sequence goes through if its first part does, and what follows from there. -/
theorem bind_goes {α β ε : Type} {x : Except ε α} {f : α → Except ε β} {a : α} (first : x = .ok a)
    (then' : ∃ b, f a = .ok b) : ∃ b, (x >>= f) = .ok b :=
  then'.imp fun _ ran => bind_eq_ok.mpr ⟨a, first, ran⟩

/-- A loop that goes through keeps what its body keeps; `I` also says how far it has come. -/
theorem foldlM_keeps {α β ε : Type} {f : β → α → Except ε β} {I : List α → β → Prop} {l : List α}
    {s t : β} (h : l.foldlM f s = .ok t) (init : I [] s)
    (keep : ∀ pre a post u v, l = pre ++ a :: post → pre.foldlM f s = .ok u → I pre u →
      f u a = .ok v → I (pre ++ [a]) v) : I l t := by
  have from' : ∀ post pre u, l = pre ++ post → pre.foldlM f s = .ok u → I pre u →
      post.foldlM f u = .ok t → I l t := by
    intro post
    induction post with
    | nil =>
      intro pre u split _ here rest
      cases rest
      rwa [split, List.append_nil]
    | cons a post ih =>
      intro pre u split ran here rest
      rw [List.foldlM_cons] at rest
      obtain ⟨v, step, rest⟩ := bind_eq_ok.mp rest
      refine ih (pre ++ [a]) v (by simp [split]) ?_ (keep pre a post u v split ran here step) rest
      simp [List.foldlM_append, ran, step]
  exact from' l [] s rfl rfl init h

end SocksProxy.Lib
