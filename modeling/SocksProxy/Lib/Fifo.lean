import SocksProxy.Lib.Run

/-!
# Bounded queues

A step of a queue says what it takes in at the back and what it lets out at the
front. Over a run nothing is lost, repeated or moved past anything else.
-/

namespace SocksProxy.Lib

structure Fifo (α : Type) where
  capacity : Nat
  items : List α
  bound : items.length ≤ capacity

structure Fifo.Move (α : Type) where
  taken : List α
  given : List α

section
variable {α : Type} {q r : Fifo α} {ms : List (Fifo α × Fifo.Move α)}

def Fifo.Step (q : Fifo α) (m : Fifo.Move α) (r : Fifo α) : Prop :=
  r.capacity = q.capacity ∧ q.items ++ m.taken = m.given ++ r.items

/-- All that the moves of a run take in, or let out. -/
def Fifo.total (side : Fifo.Move α → List α) (ms : List (Fifo α × Fifo.Move α)) : List α :=
  ms.flatMap fun p => side p.2

theorem Fifo.run_conserves (run : Run Fifo.Step q ms r) : r.capacity = q.capacity ∧
    q.items ++ Fifo.total Fifo.Move.taken ms = Fifo.total Fifo.Move.given ms ++ r.items := by
  induction run with
  | start => simp [Fifo.total]
  | @next ms t u m _ step ih =>
    obtain ⟨same, moved⟩ := step
    obtain ⟨capacity, before⟩ := ih
    refine ⟨same.trans capacity, ?_⟩
    have last (side : Fifo.Move α → List α) :
        Fifo.total side (ms ++ [(t, m)]) = Fifo.total side ms ++ side m := by
      simp [Fifo.total]
    rw [last, last, ← List.append_assoc, before, List.append_assoc, moved, List.append_assoc]

end

end SocksProxy.Lib
