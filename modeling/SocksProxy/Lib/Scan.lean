/-!
# Scans that start over

A scan looks for a symbol and attempts to read the rest of a sequence behind it.
Where the stream breaks an attempt off, the scan starts over at the offending
symbol. A machine that is fed the stream one symbol at a time finds what the scan
finds if each of its phases agrees with the attempt it stands for.
-/

namespace SocksProxy.Lib

/-- The sequence is found, the stream breaks it off at the first symbol of `rest`, or the
stream ends before either. -/
inductive Attempt (β α : Type)
  | found (a : α) (rest : List β)
  | broken (rest : List β)
  | pending
  deriving DecidableEq, Repr

section
variable {α β γ σ : Type}

namespace Attempt

def bind (o : Attempt β α) (f : α → List β → Attempt β γ) : Attempt β γ :=
  match o with
  | found a rest => f a rest
  | broken rest => broken rest
  | pending => pending

/-- The rest is no longer than `n`. -/
def Within (n : Nat) : Attempt β α → Prop
  | found _ rest => rest.length ≤ n
  | broken rest => rest.length ≤ n
  | pending => True

theorem Within.mono {m n : Nat} {o : Attempt β α} (h : o.Within m) (le : m ≤ n) : o.Within n := by
  cases o with
  | found a rest => exact Nat.le_trans h le
  | broken rest => exact Nat.le_trans h le
  | pending => trivial

theorem Within.bind {n : Nat} {o : Attempt β α} {f : α → List β → Attempt β γ} (h : o.Within n)
    (next : ∀ a rest, (f a rest).Within rest.length) : (o.bind f).Within n := by
  cases o with
  | found a rest => exact (next a rest).mono h
  | broken rest => exact h
  | pending => trivial

/-- The word at the head of the stream. -/
def word [DecidableEq β] : List β → List β → Attempt β Unit
  | [], s => found () s
  | _ :: _, [] => pending
  | w :: ws, b :: s => if w = b then word ws s else broken (b :: s)

theorem word_within [DecidableEq β] (w s : List β) : (word w s).Within s.length := by
  induction w generalizing s with
  | nil => exact Nat.le_refl _
  | cons x ws ih =>
    cases s with
    | nil => trivial
    | cons b s =>
      rw [word]
      split
      · exact (ih s).mono (Nat.le_succ _)
      · exact Nat.le_refl _

end Attempt

theorem Attempt.Within.rest_le {n : Nat} {o : Attempt β α} (h : o.Within n) :
    (∀ a rest, o = .found a rest → rest.length ≤ n) ∧
      ∀ rest, o = .broken rest → rest.length ≤ n := by
  constructor
  · rintro a rest rfl
    exact h
  · rintro rest rfl
    exact h

/-- Everything that is found behind a `first`. -/
def scan [DecidableEq β] (first : β) (attempt : List β → Attempt β α)
    (within : ∀ s, (attempt s).Within s.length) : List β → List α
  | [] => []
  | b :: s =>
    if b = first then
      match outcome : attempt s with
      | .found a rest =>
        have := (within s).rest_le.1 a rest outcome
        a :: scan first attempt within rest
      | .broken rest =>
        have := (within s).rest_le.2 rest outcome
        scan first attempt within rest
      | .pending => []
    else scan first attempt within s
termination_by s => s.length

/-! ## Machines -/

/-- What a machine puts out on a stream. -/
def emit (feed : σ → β → σ × List α) : σ → List β → List α
  | _, [] => []
  | q, b :: s => (feed q b).2 ++ emit feed (feed q b).1 s

variable {feed : σ → β → σ × List α} {idle : σ}

/-- What the machine puts out is what the outcome says: `done` where something is found,
and as if it had been idle before the symbol that broke the attempt off. -/
def Agrees (feed : σ → β → σ × List α) (idle : σ) (done : γ → List β → List α) (out : List α) :
    Attempt β γ → Prop
  | .found a rest => out = done a rest
  | .broken rest => out = emit feed idle rest
  | .pending => out = []

theorem Agrees.bind {δ : Type} {o : Attempt β γ} {f : γ → List β → Attempt β δ} {out : List α}
    {done : γ → List β → List α} {done' : δ → List β → List α}
    (first : Agrees feed idle done out o)
    (second : ∀ a rest, Agrees feed idle done' (done a rest) (f a rest)) :
    Agrees feed idle done' out (o.bind f) := by
  cases o with
  | found a rest =>
    obtain rfl : out = done a rest := first
    exact second a rest
  | broken rest => exact first
  | pending => exact first

/-- A machine that agrees with the attempt behind every `first` puts out what the scan finds. -/
theorem emit_scan [DecidableEq β] {first : β} {attempt : List β → Attempt β α}
    {within : ∀ s, (attempt s).Within s.length} (begun : σ)
    (starts : feed idle first = (begun, []))
    (waits : ∀ b, b ≠ first → feed idle b = (idle, []))
    (agrees : ∀ s,
      Agrees feed idle (fun a rest => a :: emit feed idle rest) (emit feed begun s) (attempt s))
    (s : List β) : emit feed idle s = scan first attempt within s := by
  fun_induction scan first attempt within s with
  | case1 => rfl
  | case2 s a rest outcome shorter ih =>
    have here := agrees s
    rw [outcome] at here
    rw [emit, starts, List.nil_append, ← ih]
    exact here
  | case3 s rest outcome shorter ih =>
    have here := agrees s
    rw [outcome] at here
    rw [emit, starts, List.nil_append, ← ih]
    exact here
  | case4 s outcome =>
    have here := agrees s
    rw [outcome] at here
    rw [emit, starts, List.nil_append]
    exact here
  | case5 b s other ih =>
    rw [emit, waits b other, List.nil_append]
    exact ih

end

end SocksProxy.Lib
