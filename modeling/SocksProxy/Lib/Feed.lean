import SocksProxy.Lib.Fault

/-!
# Feeding a machine one item at a time

`feedUntil` gives the items to a machine in order and stops after the first
one that makes `stop` true, leaving the rest. It is the loop of every
incremental parser; the laws below say how such a loop sees a stream that
arrives in pieces.
-/

namespace SocksProxy.Lib

section
variable {σ β : Type}

def feedAll (feed : σ → β → Result σ) : σ → List β → Result σ
  | s, [] => .ok s
  | s, b :: bs => feed s b >>= fun t => feedAll feed t bs

def feedUntil (feed : σ → β → Result σ) (stop : σ → Bool) :
    σ → List β → Result (σ × List β)
  | s, [] => .ok (s, [])
  | s, b :: bs => feed s b >>= fun t =>
      if stop t then .ok (t, bs) else feedUntil feed stop t bs

variable {feed : σ → β → Result σ} {stop : σ → Bool}

/-- A machine that never faults is fed by a fold. -/
theorem feedAll_total (f : σ → β → σ) (s : σ) (xs : List β) :
    feedAll (fun s b => .ok (f s b)) s xs = .ok (xs.foldl f s) := by
  induction xs generalizing s with
  | nil => rfl
  | cons x xs ih => exact ih (f s x)

/-- The loop consumes a prefix; it leaves something only when it stopped. -/
theorem feedUntil_consumed {s t : σ} {xs rest : List β}
    (h : feedUntil feed stop s xs = .ok (t, rest)) :
    ∃ fed, xs = fed ++ rest ∧ feedAll feed s fed = .ok t ∧
      (stop t = true ∨ rest = []) := by
  induction xs generalizing s with
  | nil =>
    simp only [feedUntil, Except.ok.injEq, Prod.mk.injEq] at h
    exact ⟨[], by simp [h.2], by simp [feedAll, h.1], Or.inr h.2.symm⟩
  | cons x xs ih =>
    simp only [feedUntil] at h
    obtain ⟨u, hu, h⟩ := bind_eq_ok.mp h
    split at h
    · simp only [Except.ok.injEq, Prod.mk.injEq] at h
      obtain ⟨rfl, rfl⟩ := h
      exact ⟨[x], rfl, by simp [feedAll, hu], Or.inl (by assumption)⟩
    · obtain ⟨fed, rfl, hf, hs⟩ := ih h
      exact ⟨x :: fed, rfl, by simpa [feedAll, hu] using hf, hs⟩

/-- Every proper prefix of what the loop consumed left the machine running. -/
theorem feedUntil_running {s t : σ} {xs rest : List β}
    (h : feedUntil feed stop s xs = .ok (t, rest)) :
    ∃ fed, xs = fed ++ rest ∧ ∀ p q, fed = p ++ q → p ≠ [] → q ≠ [] →
      ∃ u, feedAll feed s p = .ok u ∧ stop u = false := by
  induction xs generalizing s with
  | nil =>
    simp only [feedUntil, Except.ok.injEq, Prod.mk.injEq] at h
    refine ⟨[], by simp [h.2], fun p q hpq hp _ => ?_⟩
    simp_all
  | cons x xs ih =>
    simp only [feedUntil] at h
    obtain ⟨u, hu, h⟩ := bind_eq_ok.mp h
    split at h
    · simp only [Except.ok.injEq, Prod.mk.injEq] at h
      obtain ⟨rfl, rfl⟩ := h
      refine ⟨[x], rfl, fun p q hpq hp hq => ?_⟩
      have := congrArg List.length hpq
      have := List.length_pos_iff.mpr hp
      have := List.length_pos_iff.mpr hq
      simp only [List.length_append, List.length_singleton] at *
      omega
    · rename_i running
      obtain ⟨fed, rfl, hf⟩ := ih h
      refine ⟨x :: fed, rfl, fun p q hpq hp hq => ?_⟩
      cases p with
      | nil => exact absurd rfl hp
      | cons y p =>
        simp only [List.cons_append, List.cons.injEq] at hpq
        obtain ⟨rfl, rfl⟩ := hpq
        cases p with
        | nil => exact ⟨u, by simp [feedAll, hu], by simpa using running⟩
        | cons z p =>
          obtain ⟨v, hv, hs⟩ := hf (z :: p) q rfl (by simp) hq
          exact ⟨v, by simpa [feedAll, hu] using hv, hs⟩

/-- A piece that ends before the machine stops can be fed on its own. -/
theorem feedUntil_append_running {s t : σ} {xs ys : List β}
    (h : feedUntil feed stop s xs = .ok (t, [])) (running : stop t = false) :
    feedUntil feed stop s (xs ++ ys) = feedUntil feed stop t ys := by
  induction xs generalizing s with
  | nil =>
    simp only [feedUntil, Except.ok.injEq, Prod.mk.injEq, and_true] at h
    simp [h]
  | cons x xs ih =>
    simp only [feedUntil, List.cons_append] at h ⊢
    obtain ⟨u, hu, h⟩ := bind_eq_ok.mp h
    simp only [hu, ok_bind]
    split at h
    · simp only [Except.ok.injEq, Prod.mk.injEq] at h
      simp_all
    · rename_i going
      simpa [going] using ih h

/-- Once the machine stopped, what follows is left as it came. -/
theorem feedUntil_append_stopped {s t : σ} {xs rest : List β} (ys : List β)
    (nonempty : xs ≠ []) (h : feedUntil feed stop s xs = .ok (t, rest))
    (stopped : stop t = true) :
    feedUntil feed stop s (xs ++ ys) = .ok (t, rest ++ ys) := by
  induction xs generalizing s with
  | nil => exact absurd rfl nonempty
  | cons x xs ih =>
    simp only [feedUntil, List.cons_append] at h ⊢
    obtain ⟨u, hu, h⟩ := bind_eq_ok.mp h
    simp only [hu, ok_bind]
    split at h
    · rename_i stopped'
      simp only [Except.ok.injEq, Prod.mk.injEq] at h
      obtain ⟨rfl, rfl⟩ := h
      simp [stopped']
    · rename_i going
      cases xs with
      | nil =>
        simp only [feedUntil, Except.ok.injEq, Prod.mk.injEq] at h
        simp_all
      | cons y ys' => simpa [going] using ih (by simp) h

end

end SocksProxy.Lib
