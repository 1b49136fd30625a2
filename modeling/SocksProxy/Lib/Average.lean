import Mathlib.Algebra.BigOperators.Group.List.Basic
import Mathlib.Algebra.GroupWithZero.Nat
import Mathlib.Data.List.Induction

/-!
# An average that is kept as a whole number

`running` updates an average by one more value, from the rounded average and the
number of values alone. What is rounded off is lost, so the result is the
rounded average of all values only as long as the remainders do not decrease.
-/

namespace SocksProxy.Lib

/-- The average and the number of values, after one more value. -/
def running (s : Nat × Nat) (n : Nat) : Nat × Nat := ((s.1 * s.2 + n) / (s.2 + 1), s.2 + 1)

def runningOf (values : List Nat) : Nat × Nat := values.foldl running (0, 0)

/-- The remainders of the sums by the number of values, which round the true averages down. -/
def RemaindersRise (values : List Nat) : Prop :=
  ∀ j, 0 < j → j < values.length → (values.take j).sum % j ≤ (values.take (j + 1)).sum % (j + 1)

section
variable {values : List Nat} {n : Nat}

theorem runningOf_snoc (values : List Nat) (n : Nat) :
    runningOf (values ++ [n]) = running (runningOf values) n := by
  simp [runningOf]

theorem runningOf_count (values : List Nat) : (runningOf values).2 = values.length := by
  induction values using List.reverseRecOn with
  | nil => rfl
  | append_singleton values n ih => simp [runningOf_snoc, running, ih]

/-- The running average never exceeds the true one. -/
theorem runningOf_le_sum (values : List Nat) :
    (runningOf values).1 * values.length ≤ values.sum := by
  induction values using List.reverseRecOn with
  | nil => exact Nat.le_refl 0
  | append_singleton values n ih =>
    have count := runningOf_count values
    have floor := Nat.div_mul_le_self ((runningOf values).1 * values.length + n) (values.length + 1)
    simp only [runningOf_snoc, running, count, List.length_append, List.length_singleton,
      List.sum_append, List.sum_singleton]
    omega

/-- One step from a true average gives a true average if and only if the remainder
does not decrease. -/
theorem running_exact_iff {sum count : Nat} (some' : 0 < count) :
    (running (sum / count, count) n).1 = (sum + n) / (count + 1) ↔
      sum % count ≤ (sum + n) % (count + 1) := by
  have before := Nat.div_add_mod' sum count
  have after := Nat.div_add_mod' (sum + n) (count + 1)
  have small : (sum + n) % (count + 1) < count + 1 := Nat.mod_lt _ (Nat.zero_lt_succ count)
  have left : sum / count * count + n = sum + n - sum % count := by omega
  simp only [running, left]
  rw [Nat.div_eq_iff (by omega : 0 < count + 1)]
  constructor
  · rintro ⟨low, -⟩
    omega
  · intro rise
    constructor
    · omega
    · omega

theorem rise_snoc (values : List Nat) (n : Nat) :
    RemaindersRise (values ++ [n]) ↔ RemaindersRise values ∧
      (values ≠ [] → values.sum % values.length ≤ (values.sum + n) % (values.length + 1)) := by
  constructor
  · intro rise
    constructor
    · intro j some' low
      have here := rise j some' (by rw [List.length_append]; omega)
      rwa [List.take_append_of_le_length (by omega),
        List.take_append_of_le_length (by omega)] at here
    · intro nonempty
      have here := rise values.length (List.length_pos_iff.mpr nonempty) (by simp)
      rw [List.take_append_of_le_length (Nat.le_refl _), List.take_length,
        List.take_of_length_le (by simp), List.sum_append, List.sum_singleton] at here
      exact here
  · rintro ⟨rise, last⟩ j some' low
    rw [List.length_append, List.length_singleton] at low
    by_cases inside : j < values.length
    · rw [List.take_append_of_le_length (by omega), List.take_append_of_le_length (by omega)]
      exact rise j some' inside
    · obtain rfl : j = values.length := by omega
      rw [List.take_append_of_le_length (Nat.le_refl _), List.take_length,
        List.take_of_length_le (by simp), List.sum_append, List.sum_singleton]
      exact last (List.length_pos_iff.mp some')

/-- The running average was true after every value if and only if the remainders rose. -/
theorem runningOf_exact_iff (values : List Nat) :
    (∀ p, p <+: values → p ≠ [] → (runningOf p).1 = p.sum / p.length) ↔ RemaindersRise values := by
  induction values using List.reverseRecOn with
  | nil =>
    refine iff_of_true (fun p pre nonempty => ?_) (fun j _ low => absurd low (Nat.not_lt_zero j))
    exact absurd (List.prefix_nil.mp pre) nonempty
  | append_singleton values n ih =>
    rw [rise_snoc, ← ih]
    have step (nonempty : values ≠ [])
        (exact' : (runningOf values).1 = values.sum / values.length) :
        (runningOf (values ++ [n])).1 = (values ++ [n]).sum / (values ++ [n]).length ↔
          values.sum % values.length ≤ (values.sum + n) % (values.length + 1) := by
      have pair : runningOf values = (values.sum / values.length, values.length) :=
        Prod.ext exact' (runningOf_count values)
      rw [runningOf_snoc, pair, List.sum_append, List.sum_singleton, List.length_append,
        List.length_singleton]
      exact running_exact_iff (List.length_pos_iff.mpr nonempty)
    constructor
    · intro all
      have earlier : ∀ p, p <+: values → p ≠ [] → (runningOf p).1 = p.sum / p.length :=
        fun p pre => all p (pre.trans (List.prefix_append _ _))
      refine ⟨earlier, fun nonempty => ?_⟩
      exact (step nonempty (earlier values List.prefix_rfl nonempty)).mp
        (all _ List.prefix_rfl (by simp))
    · rintro ⟨earlier, rise⟩ p pre nonempty
      rcases List.prefix_concat_iff.mp pre with rfl | pre
      · by_cases first : values = []
        · subst first
          simp [runningOf, running]
        · exact (step first (earlier values List.prefix_rfl first)).mpr (rise first)
      · exact earlier p pre nonempty

end

end SocksProxy.Lib
