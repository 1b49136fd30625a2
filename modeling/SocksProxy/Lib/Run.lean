/-!
# Runs of a labelled transition system

A run keeps, for every step taken, the state it left and its label, so that a
condition on the steps of a run is a condition on that list.
-/

namespace SocksProxy.Lib

section
variable {σ ℓ : Type}

inductive Run (step : σ → ℓ → σ → Prop) (s : σ) : List (σ × ℓ) → σ → Prop
  | start : Run step s [] s
  | next {ls : List (σ × ℓ)} {t u : σ} {l : ℓ} :
      Run step s ls t → step t l u → Run step s (ls ++ [(t, l)]) u

variable {step : σ → ℓ → σ → Prop}

theorem Run.single {s t : σ} {l : ℓ} (h : step s l t) : Run step s [(s, l)] t :=
  .next .start h

theorem Run.append {s t u : σ} {ls ms : List (σ × ℓ)} (h : Run step s ls t)
    (k : Run step t ms u) : Run step s (ls ++ ms) u := by
  induction k with
  | start => simpa using h
  | next _ st ih => simpa [List.append_assoc] using Run.next ih st

/-- What holds at the start and is kept by every step that meets `C` holds at
the end of each run whose steps all meet `C`. -/
theorem Run.invariant {C : σ → ℓ → Prop} {I : σ → Prop}
    (keep : ∀ t l u, I t → C t l → step t l u → I u) {s u : σ} {ls : List (σ × ℓ)}
    (h : Run step s ls u) (hok : ∀ p ∈ ls, C p.1 p.2) (init : I s) : I u := by
  induction h with
  | start => exact init
  | @next ls t u l _ st ih =>
    have ht : I t := ih (fun p hp => hok p (List.mem_append_left _ hp))
    exact keep t l u ht (hok (t, l) (by simp)) st

/-- The same for an invariant that every step keeps. -/
theorem Run.always {I : σ → Prop} (keep : ∀ t l u, I t → step t l u → I u) {s u : σ}
    {ls : List (σ × ℓ)} (h : Run step s ls u) (init : I s) : I u :=
  h.invariant (C := fun _ _ => True) (fun t l u ht _ st => keep t l u ht st)
    (fun _ _ => trivial) init

/-- A run whose last step is known to come from a state of the run. -/
theorem Run.mem_step {s u : σ} {ls : List (σ × ℓ)} (h : Run step s ls u) {p : σ × ℓ}
    (hp : p ∈ ls) : ∃ ms t, Run step s ms p.1 ∧ step p.1 p.2 t ∧ ∀ q ∈ ms, q ∈ ls := by
  induction h with
  | start => cases hp
  | @next ls t u l run st ih =>
    rcases List.mem_append.mp hp with hp | hp
    · obtain ⟨ms, v, hr, hs, sub⟩ := ih hp
      exact ⟨ms, v, hr, hs, fun q hq => List.mem_append_left _ (sub q hq)⟩
    · obtain rfl := List.mem_singleton.mp hp
      exact ⟨ls, u, run, st, fun q hq => List.mem_append_left _ hq⟩

end

end SocksProxy.Lib
