import Mathlib.Data.List.Nodup
import Mathlib.Logic.Function.Basic
import SocksProxy.Lib.Run

/-!
# Components that share a world

Each component has a part of its own and sees the one world. What it sees of a run
of them all is a run of its own, in which the steps of the others are steps of its
environment, when each of them leaves the others what they rely on. A census lists
the components with a property.
-/

namespace SocksProxy.Lib

structure Crowd (ι κ ω : Type) where
  world : ω
  part : ι → Option κ

section
variable {ι κ ω σ ℓ μ : Type} {view : κ → ω → σ} {act : σ → μ → σ → Prop} {born : ι → σ → Prop}
  {s t : Crowd ι κ ω} {i : ι} {w : ω}

/-- The part of `i` and the world change; `none` takes the component away. -/
def Crowd.move [DecidableEq ι] (s : Crowd ι κ ω) (i : ι) (k : Option κ) (w : ω) : Crowd ι κ ω :=
  ⟨w, Function.update s.part i k⟩

@[simp] theorem move_world [DecidableEq ι] (k : Option κ) : (s.move i k w).world = w := rfl

@[simp] theorem move_self [DecidableEq ι] (k : Option κ) : (s.move i k w).part i = k :=
  Function.update_self ..

theorem move_other [DecidableEq ι] (k : Option κ) {j : ι} (other : j ≠ i) :
    (s.move i k w).part j = s.part j :=
  Function.update_of_ne other ..

/-- A component of the second state was there in the first, or was born, and what it
sees has gone on by steps of its own. -/
def Crowd.Continues (view : κ → ω → σ) (act : σ → μ → σ → Prop) (born : ι → σ → Prop)
    (s t : Crowd ι κ ω) : Prop :=
  ∀ i k', t.part i = some k' →
    ∃ v ms, ((∃ k, s.part i = some k ∧ v = view k s.world) ∨ born i v) ∧
      Run act v ms (view k' t.world)

/-- The world changes; every component takes it as steps of its environment. -/
theorem continues_world
    (others : ∀ j k, s.part j = some k → ∃ ms, Run act (view k s.world) ms (view k w)) :
    s.Continues view act born ⟨w, s.part⟩ := by
  intro j k there
  obtain ⟨ms, run⟩ := others j k there
  exact ⟨_, ms, .inl ⟨k, there, rfl⟩, run⟩

/-- One component moves, or is born, or leaves. -/
theorem continues_move [DecidableEq ι] {k' : Option κ}
    (own : ∀ k, k' = some k → ∃ v ms,
      ((∃ k, s.part i = some k ∧ v = view k s.world) ∨ born i v) ∧ Run act v ms (view k w))
    (others : ∀ j k, j ≠ i → s.part j = some k →
      ∃ ms, Run act (view k s.world) ms (view k w)) :
    s.Continues view act born (s.move i k' w) := by
  intro j k there
  by_cases same : j = i
  · subst same
    rw [move_self] at there
    exact own k there
  · rw [move_other k' same] at there
    obtain ⟨ms, run⟩ := others j k same there
    exact ⟨_, ms, .inl ⟨k, there, rfl⟩, run⟩

/-- What a component sees of a run is a run of its own from its birth. -/
theorem seen_run {step : Crowd ι κ ω → ℓ → Crowd ι κ ω → Prop} {I : Crowd ι κ ω → Prop}
    {C : Crowd ι κ ω → ℓ → Prop} {ls : List (Crowd ι κ ω × ℓ)}
    (keep : ∀ s l t, I s → C s l → step s l t → I t ∧ s.Continues view act born t)
    (init : I s) (alone : ∀ i, s.part i = none) (run : Run step s ls t)
    (cond : ∀ p ∈ ls, C p.1 p.2) :
    I t ∧ ∀ i k, t.part i = some k →
      ∃ v ms, born i v ∧ Run act v ms (view k t.world) := by
  induction run with
  | start => exact ⟨init, fun i k there => nomatch (alone i).symm.trans there⟩
  | @next ls u t l _ next ih =>
    obtain ⟨good, seen⟩ := ih fun p member => cond p (List.mem_append_left _ member)
    obtain ⟨good', continues⟩ := keep u l t good (cond (u, l) (by simp)) next
    refine ⟨good', fun i k there => ?_⟩
    obtain ⟨v, ms, ⟨k', there', rfl⟩ | fresh, after⟩ := continues i k there
    · obtain ⟨v, ms', fresh, before⟩ := seen i k' there'
      exact ⟨v, ms' ++ ms, fresh, before.append after⟩
    · exact ⟨v, ms, fresh, after⟩

/-! ## Counting components -/

structure Crowd.Census (s : Crowd ι κ ω) (P : κ → Bool) (ids : List ι) : Prop where
  nodup : ids.Nodup
  mem : ∀ i, i ∈ ids ↔ (s.part i).any P = true

theorem census_none {P : κ → Bool} (alone : ∀ i, s.part i = none) : s.Census P [] where
  nodup := List.nodup_nil
  mem := by
    intro i
    rw [alone i]
    exact ⟨fun member => absurd member List.not_mem_nil, fun no => absurd no Bool.false_ne_true⟩

theorem Crowd.Census.world {P : κ → Bool} {ids : List ι} (h : s.Census P ids) :
    Crowd.Census ⟨w, s.part⟩ P ids := ⟨h.nodup, h.mem⟩

/-- A move counts its component out as it was and in as it is. -/
theorem census_move [DecidableEq ι] {P : κ → Bool} {ids : List ι} (h : s.Census P ids)
    (i : ι) (k : Option κ) : ∃ ids', (s.move i k w).Census P ids' ∧
      ids'.length + ((s.part i).any P).toNat = ids.length + (k.any P).toNat := by
  have out : (ids.erase i).length + ((s.part i).any P).toNat = ids.length := by
    cases was : (s.part i).any P with
    | true =>
      have member := (h.mem i).mpr was
      have some' := List.length_pos_of_mem member
      rw [List.length_erase_of_mem member, Bool.toNat_true]
      omega
    | false =>
      have absent : i ∉ ids := fun member => absurd ((h.mem i).mp member) (by rw [was]; decide)
      rw [List.erase_of_not_mem absent, Bool.toNat_false, Nat.add_zero]
  have rest : ∀ j, j ∈ ids.erase i ↔ j ≠ i ∧ ((s.move i k w).part j).any P = true := by
    intro j
    rw [h.nodup.mem_erase_iff, h.mem j]
    exact and_congr_right fun other => by rw [move_other k other]
  cases now : k.any P with
  | true =>
    refine ⟨i :: ids.erase i, ⟨?_, fun j => ?_⟩, ?_⟩
    · exact List.nodup_cons.mpr ⟨fun member => ((rest i).mp member).1 rfl, h.nodup.erase i⟩
    · rw [List.mem_cons, rest j]
      by_cases same : j = i
      · rw [same, move_self]
        exact ⟨fun _ => now, fun _ => .inl rfl⟩
      · exact ⟨fun either => (either.resolve_left same).2, fun there => .inr ⟨same, there⟩⟩
    · rw [List.length_cons, Bool.toNat_true]
      omega
  | false =>
    refine ⟨ids.erase i, ⟨h.nodup.erase i, fun j => ?_⟩, out⟩
    rw [rest j]
    refine ⟨And.right, fun there => ⟨?_, there⟩⟩
    rintro rfl
    rw [move_self, now] at there
    cases there

end

end SocksProxy.Lib
