/-!
# A pipe: bytes go in at one end and come out at the other

What came out followed by what is inside is what went in; the equation is a
field, so every pipe that can be built has it.
-/

namespace SocksProxy.Lib

structure Pipe (α : Type) where
  arrived : List α
  delivered : List α
  pending : List α
  conserved : delivered ++ pending = arrived

section
variable {α : Type}

def Pipe.start (pending : List α) : Pipe α := ⟨pending, [], pending, rfl⟩

def Pipe.push (p : Pipe α) (xs : List α) : Pipe α where
  arrived := p.arrived ++ xs
  delivered := p.delivered
  pending := p.pending ++ xs
  conserved := by rw [← List.append_assoc, p.conserved]

def Pipe.pop (p : Pipe α) (n : Nat) : Pipe α where
  arrived := p.arrived
  delivered := p.delivered ++ p.pending.take n
  pending := p.pending.drop n
  conserved := by rw [List.append_assoc, List.take_append_drop, p.conserved]

/-- An empty pipe has delivered all that arrived. -/
theorem Pipe.drained {p : Pipe α} (empty : p.pending = []) : p.delivered = p.arrived := by
  simpa [empty] using p.conserved

end

end SocksProxy.Lib
