import SocksProxy.Lib.Fault

/-!
# stm.c: the table-driven state machine

`κ` is what the hooks and handlers act on. A state is named by its index in
the table, which stands for the pointer the source keeps.
-/

namespace SocksProxy

open Lib

structure StateDefinition (κ : Type) where
  state : Nat
  onArrival : Option (κ → Result κ)
  onDeparture : Option (κ → Result κ)
  onReadReady : Option (κ → Result (Nat × κ))
  onWriteReady : Option (κ → Result (Nat × κ))
  onBlockReady : Option (κ → Result (Nat × κ))

/-- `current` is NULL until the first event. -/
structure StateMachine where
  initial : Nat
  maxState : Nat
  current : Option Nat
  deriving DecidableEq, Repr

section
variable {κ : Type}

def stateAt (states : List (StateDefinition κ)) (i : Nat) : Result (StateDefinition κ) :=
  match states[i]? with
  | some d => .ok d
  | none => .error .outOfBounds

def runHook (hook : Option (κ → Result κ)) (k : κ) : Result κ :=
  match hook with
  | some f => f k
  | none => .ok k

def stmInit (states : List (StateDefinition κ)) (stm : StateMachine) : Result StateMachine :=
  if (List.range (stm.maxState + 1)).all (fun i => states[i]?.any (fun d => d.state = i)) then
    if stm.initial < stm.maxState then .ok { stm with current := none } else .error .abort
  else .error .abort

def handleFirst (states : List (StateDefinition κ)) (stm : StateMachine) (k : κ) :
    Result (StateMachine × κ) :=
  match stm.current with
  | some _ => .ok (stm, k)
  | none => do
    let d ← stateAt states stm.initial
    let k ← runHook d.onArrival k
    .ok ({ stm with current := some stm.initial }, k)

def jump (states : List (StateDefinition κ)) (stm : StateMachine) (next : Nat) (k : κ) :
    Result (StateMachine × κ) :=
  if stm.maxState < next then .error .abort
  else if stm.current = some next then .ok (stm, k)
  else do
    let k ← match stm.current with
      | some i => do
        let d ← stateAt states i
        runHook d.onDeparture k
      | none => .ok k
    let d ← stateAt states next
    let k ← runHook d.onArrival k
    .ok ({ stm with current := some next }, k)

/-- The common body of `stm_handler_read`, `stm_handler_write` and
`stm_handler_block`; `pick` selects the handler of the event. -/
def stmHandler (pick : StateDefinition κ → Option (κ → Result (Nat × κ)))
    (states : List (StateDefinition κ)) (stm : StateMachine) (k : κ) :
    Result (Nat × StateMachine × κ) := do
  let (stm, k) ← handleFirst states stm k
  match stm.current with
  | none => .error .nullPointer
  | some i => do
    let d ← stateAt states i
    match pick d with
    | none => .error .abort
    | some handler => do
      let (ret, k) ← handler k
      let (stm, k) ← jump states stm ret k
      .ok (ret, stm, k)

def stmHandlerRead (states : List (StateDefinition κ)) (stm : StateMachine) (k : κ) :
    Result (Nat × StateMachine × κ) :=
  stmHandler StateDefinition.onReadReady states stm k

def stmHandlerWrite (states : List (StateDefinition κ)) (stm : StateMachine) (k : κ) :
    Result (Nat × StateMachine × κ) :=
  stmHandler StateDefinition.onWriteReady states stm k

def stmHandlerBlock (states : List (StateDefinition κ)) (stm : StateMachine) (k : κ) :
    Result (Nat × StateMachine × κ) :=
  stmHandler StateDefinition.onBlockReady states stm k

end

/-- `stm_state`. Every state's identifier is its index, which `stm_init` checked. -/
def stmState (stm : StateMachine) : Nat := stm.current.getD stm.initial

/-! ## What one event does -/

section
variable {κ : Type} {states : List (StateDefinition κ)} {stm stm' : StateMachine} {k k' : κ}

theorem stateAt_ok {i : Nat} {d : StateDefinition κ} :
    stateAt states i = .ok d ↔ states[i]? = some d := by
  unfold stateAt
  split <;> simp_all

/-- Leaving `i` for `next`: the departure hook of the one, then the arrival hook
of the other. -/
def Crosses (states : List (StateDefinition κ)) (i next : Nat) (k k' : κ) : Prop :=
  ∃ d e mid, states[i]? = some d ∧ states[next]? = some e ∧
    runHook d.onDeparture k = .ok mid ∧ runHook e.onArrival mid = .ok k'

theorem jump_ok {i next : Nat} (at' : stm.current = some i)
    (h : jump states stm next k = .ok (stm', k')) :
    next ≤ stm.maxState ∧ stm' = { stm with current := some next } ∧
      (next = i ∧ k' = k ∨ next ≠ i ∧ Crosses states i next k k') := by
  simp only [jump] at h
  split at h
  · cases h
  · rename_i bound
    split at h
    · rename_i same
      simp only [Except.ok.injEq, Prod.mk.injEq] at h
      obtain ⟨rfl, rfl⟩ := h
      rw [at'] at same
      obtain rfl := Option.some.inj same
      exact ⟨by omega, by rw [← at'], Or.inl ⟨rfl, rfl⟩⟩
    · rename_i moved
      simp only [at'] at h
      obtain ⟨d, found, h⟩ := bind_eq_ok.mp h
      obtain ⟨mid, left, h⟩ := bind_eq_ok.mp h
      obtain ⟨e, found', h⟩ := bind_eq_ok.mp h
      obtain ⟨last, arrived, h⟩ := bind_eq_ok.mp h
      simp only [Except.ok.injEq, Prod.mk.injEq] at h
      obtain ⟨rfl, rfl⟩ := h
      refine ⟨by omega, rfl, Or.inr ⟨fun same => moved (by rw [at', same]), ?_⟩⟩
      exact ⟨d, e, mid, stateAt_ok.mp found, stateAt_ok.mp found', left, arrived⟩

/-- The state an event finds: the first event of a machine arrives at the
initial state before it is handled. -/
def Found (states : List (StateDefinition κ)) (stm : StateMachine) (k : κ) (i : Nat) (k' : κ) :
    Prop :=
  stm.current = some i ∧ k' = k ∨
    stm.current = none ∧ i = stm.initial ∧
      ∃ d, states[i]? = some d ∧ runHook d.onArrival k = .ok k'

theorem stmHandler_ok {pick : StateDefinition κ → Option (κ → Result (Nat × κ))} {ret : Nat}
    (h : stmHandler pick states stm k = .ok (ret, stm', k')) :
    ∃ i d handler start mid, Found states stm k i start ∧ states[i]? = some d ∧
      pick d = some handler ∧ handler start = .ok (ret, mid) ∧ ret ≤ stm.maxState ∧
      stm' = { stm with current := some ret } ∧
      (ret = i ∧ k' = mid ∨ ret ≠ i ∧ Crosses states i ret mid k') := by
  simp only [stmHandler] at h
  obtain ⟨⟨first, start⟩, began, h⟩ := bind_eq_ok.mp h
  obtain ⟨i, found, at', rest⟩ : ∃ i, Found states stm k i start ∧ first.current = some i ∧
      first = { stm with current := some i } := by
    simp only [handleFirst] at began
    split at began
    · rename_i i at'
      simp only [Except.ok.injEq, Prod.mk.injEq] at began
      obtain ⟨rfl, rfl⟩ := began
      exact ⟨i, Or.inl ⟨at', rfl⟩, at', by rw [← at']⟩
    · rename_i at'
      obtain ⟨d, found, began⟩ := bind_eq_ok.mp began
      obtain ⟨last, arrived, began⟩ := bind_eq_ok.mp began
      simp only [Except.ok.injEq, Prod.mk.injEq] at began
      obtain ⟨rfl, rfl⟩ := began
      exact ⟨_, Or.inr ⟨at', rfl, d, stateAt_ok.mp found, arrived⟩, rfl, rfl⟩
  simp only [at'] at h
  obtain ⟨d, present, h⟩ := bind_eq_ok.mp h
  split at h
  · cases h
  · rename_i handler picked
    obtain ⟨⟨r, mid⟩, handled, h⟩ := bind_eq_ok.mp h
    obtain ⟨⟨last, k''⟩, jumped, h⟩ := bind_eq_ok.mp h
    simp only [Except.ok.injEq, Prod.mk.injEq] at h
    obtain ⟨rfl, rfl, rfl⟩ := h
    obtain ⟨bound, stm_eq, moved⟩ := jump_ok at' jumped
    subst rest
    exact ⟨i, d, handler, start, mid, found, stateAt_ok.mp present, picked, handled, bound,
      stm_eq, moved⟩

end

end SocksProxy
