import SocksProxy.Lib.Feed
import SocksProxy.Lib.Throughout

/-!
# A machine that follows another

`feed` may fault; `step` says where it should be. A relation that every safe item
keeps, and that tells an item that is not safe, makes following the other
machine the same thing as meeting safe items only.
-/

namespace SocksProxy.Lib

section
variable {σ τ β : Type} (feed : σ → β → Result σ) (step : τ → β → τ) (good : σ → τ → β → σ → Prop)

/-- No item faults, and `good` holds of what each one leaves. -/
def Follows : σ → τ → List β → Prop
  | _, _, [] => True
  | s, t, b :: bs => ∃ s', feed s b = .ok s' ∧ good s t b s' ∧ Follows s' (step t b) bs

/-- The items up to the first one that halts the machine. -/
def takenUntil (halted : τ → Bool) : τ → List β → List β
  | _, [] => []
  | t, b :: bs => if halted (step t b) then [b] else b :: takenUntil halted (step t b) bs

variable {feed step good} {safe : τ → β → Prop} {tracks : σ → τ → Prop} {stop : σ → Bool}
  {halted : τ → Bool} {s : σ} {t : τ} {bs : List β}

theorem follows_iff
    (keep : ∀ s t b, tracks s t → safe t b →
      ∃ s', feed s b = .ok s' ∧ good s t b s' ∧ tracks s' (step t b))
    (only : ∀ s t b s', tracks s t → feed s b = .ok s' → good s t b s' → safe t b)
    (start : tracks s t) : Follows feed step good s t bs ↔ Throughout step safe t bs := by
  induction bs generalizing s t with
  | nil => exact Iff.rfl
  | cons b bs ih =>
    rw [Follows, Throughout]
    constructor
    · rintro ⟨s', fed, well, rest⟩
      have here := only s t b s' start fed well
      obtain ⟨u, fed', _, next⟩ := keep s t b start here
      obtain rfl : u = s' := Except.ok.inj (fed'.symm.trans fed)
      exact ⟨here, (ih next).mp rest⟩
    · rintro ⟨here, rest⟩
      obtain ⟨s', fed, well, next⟩ := keep s t b start here
      exact ⟨s', fed, well, (ih next).mpr rest⟩

/-- A loop that stops when the machine halts takes the items up to there. -/
theorem feedUntil_tracks
    (keep : ∀ s t b, tracks s t → safe t b → ∃ s', feed s b = .ok s' ∧ tracks s' (step t b))
    (stops : ∀ s t, tracks s t → stop s = halted t) (start : tracks s t)
    (met : Throughout step safe t (takenUntil step halted t bs)) :
    ∃ s', feedUntil feed stop s bs = .ok (s', bs.drop (takenUntil step halted t bs).length) ∧
      tracks s' ((takenUntil step halted t bs).foldl step t) := by
  induction bs generalizing s t with
  | nil => exact ⟨s, rfl, start⟩
  | cons b bs ih =>
    rw [takenUntil] at met ⊢
    by_cases ends : halted (step t b) = true
    · rw [if_pos ends] at met ⊢
      obtain ⟨s', fed, next⟩ := keep s t b start met.1
      refine ⟨s', ?_, next⟩
      rw [feedUntil, fed, ok_bind, stops s' _ next, if_pos ends]
      rfl
    · rw [if_neg ends] at met ⊢
      obtain ⟨s', fed, next⟩ := keep s t b start met.1
      obtain ⟨u, rest, last⟩ := ih next met.2
      refine ⟨u, ?_, last⟩
      rw [feedUntil, fed, ok_bind, stops s' _ next, if_neg ends, rest]
      rfl

end

end SocksProxy.Lib
