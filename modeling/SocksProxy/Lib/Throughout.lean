/-!
# Calls on a state, one after the other

`step` gives the state after a call. A condition on the calls of a sequence is
one on each call and the state that it finds.
-/

namespace SocksProxy.Lib

section
variable {σ α : Type} {step : σ → α → σ} {P Q : σ → α → Prop} {I : σ → Prop} {s : σ}
  {calls : List α}

/-- `P` holds of every call and the state it finds, from `s` on. -/
def Throughout (step : σ → α → σ) (P : σ → α → Prop) (s : σ) : List α → Prop
  | [] => True
  | c :: calls => P s c ∧ Throughout step P (step s c) calls

instance throughoutDecidable [∀ s c, Decidable (P s c)] :
    (s : σ) → (calls : List α) → Decidable (Throughout step P s calls)
  | _, [] => inferInstanceAs (Decidable True)
  | s, c :: calls =>
    have := throughoutDecidable (step s c) calls
    inferInstanceAs (Decidable (_ ∧ _))

/-- An invariant that the calls meeting `Q` keep makes one condition the other. -/
theorem throughout_congr (same : ∀ s c, I s → (P s c ↔ Q s c))
    (keep : ∀ s c, I s → Q s c → I (step s c)) (init : I s) :
    Throughout step P s calls ↔ Throughout step Q s calls := by
  induction calls generalizing s with
  | nil => exact Iff.rfl
  | cons c calls ih =>
    rw [Throughout, Throughout, same s c init]
    exact and_congr_right fun meets => ih (keep s c init meets)

end

end SocksProxy.Lib
