import Mathlib.Data.List.Chain
import SocksProxy.Stm
import SocksProxy.Lib.Run

/-!
# The hooks of a state machine

The hooks and handlers of a table write down their calls. What is written after
any events is told by the states that the handlers returned: each stay in a state
is an arrival, the events handled there and, once it is over, a departure.
-/

namespace SocksProxy

open Lib

inductive StmEvent
  | readReady
  | writeReady
  | blockReady
  deriving DecidableEq, Repr

inductive HookCall
  | arrival (state : Nat)
  | departure (state : Nat)
  | handler (e : StmEvent) (state : Nat)
  deriving DecidableEq, Repr

section
variable {κ : Type}

def StmEvent.pick : StmEvent → StateDefinition κ → Option (κ → Result (Nat × κ))
  | .readReady => StateDefinition.onReadReady
  | .writeReady => StateDefinition.onWriteReady
  | .blockReady => StateDefinition.onBlockReady

/-- The function of `stm.c` that the selector calls at an event. -/
def StmEvent.handle (e : StmEvent) (states : List (StateDefinition κ)) (stm : StateMachine) (k : κ) :
    Result (Nat × StateMachine × κ) :=
  match e with
  | .readReady => stmHandlerRead states stm k
  | .writeReady => stmHandlerWrite states stm k
  | .blockReady => stmHandlerBlock states stm k

theorem handle_eq (e : StmEvent) (states : List (StateDefinition κ)) (stm : StateMachine) (k : κ) :
    e.handle states stm k = stmHandler e.pick states stm k := by
  cases e <;> rfl

/-- A step is labelled with its event and the state that the handler returned. -/
def EventStep (states : List (StateDefinition κ)) (s : StateMachine × κ) (l : StmEvent × Nat)
    (t : StateMachine × κ) : Prop :=
  l.1.handle states s.1 s.2 = .ok (l.2, t)

/-! ## Writing the calls down -/

def loggedHook (call : HookCall) (f : κ → Result κ) (s : κ × List HookCall) :
    Result (κ × List HookCall) :=
  f s.1 >>= fun k => .ok (k, s.2 ++ [call])

def loggedHandler (call : HookCall) (f : κ → Result (Nat × κ)) (s : κ × List HookCall) :
    Result (Nat × κ × List HookCall) :=
  f s.1 >>= fun r => .ok (r.1, r.2, s.2 ++ [call])

/-- A missing hook is still missing. -/
def StateDefinition.logged (d : StateDefinition κ) : StateDefinition (κ × List HookCall) where
  state := d.state
  onArrival := d.onArrival.map (loggedHook (.arrival d.state))
  onDeparture := d.onDeparture.map (loggedHook (.departure d.state))
  onReadReady := d.onReadReady.map (loggedHandler (.handler .readReady d.state))
  onWriteReady := d.onWriteReady.map (loggedHandler (.handler .writeReady d.state))
  onBlockReady := d.onBlockReady.map (loggedHandler (.handler .blockReady d.state))

def loggedTable (states : List (StateDefinition κ)) : List (StateDefinition (κ × List HookCall)) :=
  states.map StateDefinition.logged

/-! ## What the returned states tell -/

/-- The stays that are over, with the events handled in each, and the one that is not. -/
structure Itinerary where
  left : List (Nat × List StmEvent)
  here : Nat
  events : List StmEvent
  deriving DecidableEq, Repr

/-- A handler that returns its own state stays there. -/
def Itinerary.next (c : Itinerary) (l : StmEvent × Nat) : Itinerary :=
  if l.2 = c.here then { c with events := c.events ++ [l.1] }
  else ⟨c.left ++ [(c.here, c.events ++ [l.1])], l.2, []⟩

def itinerary (initial : Nat) (ls : List (StmEvent × Nat)) : Itinerary :=
  ls.foldl Itinerary.next ⟨[], initial, []⟩

def arrivalCalls (states : List (StateDefinition κ)) (i : Nat) : List HookCall :=
  if states[i]?.any (fun d => d.onArrival.isSome) then [.arrival i] else []

def departureCalls (states : List (StateDefinition κ)) (i : Nat) : List HookCall :=
  if states[i]?.any (fun d => d.onDeparture.isSome) then [.departure i] else []

/-- A stay up to its departure. -/
def stayCalls (states : List (StateDefinition κ)) (stay : Nat × List StmEvent) : List HookCall :=
  arrivalCalls states stay.1 ++ stay.2.map fun e => .handler e stay.1

def Itinerary.calls (states : List (StateDefinition κ)) (c : Itinerary) : List HookCall :=
  c.left.flatMap (fun stay => stayCalls states stay ++ departureCalls states stay.1) ++
    stayCalls states (c.here, c.events)

/-- The states of the stays, in order. -/
def Itinerary.stops (c : Itinerary) : List Nat := c.left.map Prod.fst ++ [c.here]

variable {states : List (StateDefinition κ)} {stm stm' : StateMachine} {k k' : κ}
  {log log' : List HookCall} {i : Nat} {d : StateDefinition κ} {l : StmEvent × Nat}
  {initial : Nat} {ls : List (StmEvent × Nat)}

theorem itinerary_snoc : itinerary initial (ls ++ [l]) = (itinerary initial ls).next l := by
  simp [itinerary]

/-- Each stay but the last handled an event and was left for another state. -/
structure Itinerary.Proper (c : Itinerary) (initial : Nat) (ls : List (StmEvent × Nat)) : Prop where
  first : c.stops.head? = some initial
  apart : c.stops.IsChain (· ≠ ·)
  handled : ∀ stay ∈ c.left, stay.2 ≠ []
  events : c.left.flatMap Prod.snd ++ c.events = ls.map Prod.fst
  here : c.here = (ls.getLast?.map Prod.snd).getD initial

theorem next_proper {c : Itinerary} (proper : c.Proper initial ls) (l : StmEvent × Nat) :
    (c.next l).Proper initial (ls ++ [l]) := by
  have first := proper.first
  have apart := proper.apart
  have events := proper.events
  unfold Itinerary.next
  split
  · rename_i same
    refine ⟨first, apart, proper.handled, ?_, ?_⟩
    · simp [← events]
    · simp [same]
  · rename_i moved
    have stops : (⟨c.left ++ [(c.here, c.events ++ [l.1])], l.2, []⟩ : Itinerary).stops =
        c.stops ++ [l.2] := by simp [Itinerary.stops]
    refine ⟨?_, ?_, ?_, ?_, ?_⟩
    · rw [stops, List.head?_append, first]
      rfl
    · rw [stops, List.isChain_append]
      refine ⟨apart, .singleton _, ?_⟩
      simpa [Itinerary.stops] using fun same => moved same.symm
    · intro stay member
      rcases List.mem_append.mp member with old | new
      · exact proper.handled stay old
      · simp [List.mem_singleton.mp new]
    · simp [← events]
    · simp

theorem itinerary_proper (initial : Nat) (ls : List (StmEvent × Nat)) :
    (itinerary initial ls).Proper initial ls := by
  induction ls using List.reverseRecOn with
  | nil => exact ⟨rfl, .singleton _, by simp [itinerary], rfl, rfl⟩
  | append_singleton ls l ih =>
    rw [itinerary_snoc]
    exact next_proper ih l

/-- What an event adds to the calls. -/
theorem next_calls (states : List (StateDefinition κ)) (c : Itinerary) (e : StmEvent) (r : Nat) :
    (c.next (e, r)).calls states = c.calls states ++ .handler e c.here ::
      if r = c.here then [] else departureCalls states c.here ++ arrivalCalls states r := by
  unfold Itinerary.next
  split <;> simp [Itinerary.calls, stayCalls]

/-! ## What the machine calls -/

/-- Every state up to the last has the identifier that its place says. -/
def Correlative (states : List (StateDefinition κ)) (stm : StateMachine) : Prop :=
  ∀ i ≤ stm.maxState, ∃ d, states[i]? = some d ∧ d.state = i

theorem stmInit_ok {before : StateMachine} (accepted : stmInit states before = .ok stm) :
    stm.initial < stm.maxState ∧ stm.current = none ∧ Correlative states stm := by
  unfold stmInit at accepted
  split at accepted
  · rename_i named
    split at accepted
    · rename_i below
      obtain rfl := Except.ok.inj accepted
      refine ⟨below, rfl, fun i most => ?_⟩
      have here := List.all_eq_true.mp named i (List.mem_range.mpr (Nat.lt_succ_of_le most))
      cases found : states[i]? with
      | none => simp [found] at here
      | some d => exact ⟨d, rfl, by simpa [found] using here⟩
    · cases accepted
  · cases accepted

theorem named_logged {e : StateDefinition (κ × List HookCall)} (named : Correlative states stm)
    (most : i ≤ stm.maxState) (found : (loggedTable states)[i]? = some e) :
    ∃ d, states[i]? = some d ∧ d.state = i ∧ d.logged = e := by
  obtain ⟨d, here, name⟩ := named i most
  rw [loggedTable, List.getElem?_map, here] at found
  exact ⟨d, here, name, Option.some.inj found⟩

theorem pick_logged (e : StmEvent) (d : StateDefinition κ) :
    e.pick d.logged = (e.pick d).map (loggedHandler (.handler e d.state)) := by
  cases e <;> rfl

theorem loggedHook_ok {hook : Option (κ → Result κ)} {call : HookCall} {s t : κ × List HookCall}
    (h : runHook (hook.map (loggedHook call)) s = .ok t) :
    t.2 = s.2 ++ if hook.isSome then [call] else [] := by
  cases hook with
  | none =>
    obtain rfl := Except.ok.inj h
    simp
  | some f =>
    obtain ⟨k, _, h⟩ := bind_eq_ok.mp h
    obtain rfl := Except.ok.inj h
    rfl

theorem arrival_ok {s t : κ × List HookCall} (found : states[i]? = some d) (name : d.state = i)
    (h : runHook d.logged.onArrival s = .ok t) : t.2 = s.2 ++ arrivalCalls states i := by
  rw [loggedHook_ok h, arrivalCalls, found, name]
  rfl

theorem departure_ok {s t : κ × List HookCall} (found : states[i]? = some d) (name : d.state = i)
    (h : runHook d.logged.onDeparture s = .ok t) : t.2 = s.2 ++ departureCalls states i := by
  rw [loggedHook_ok h, departureCalls, found, name]
  rfl

/-- The machine and the calls after the events `ls`. -/
structure Recorded (states : List (StateDefinition κ)) (stm : StateMachine)
    (ls : List (StmEvent × Nat)) (s : StateMachine × κ × List HookCall) : Prop where
  machine : s.1 = { stm with
    current := if ls = [] then none else some (itinerary stm.initial ls).here }
  calls : s.2.2 = if ls = [] then [] else (itinerary stm.initial ls).calls states
  here : (itinerary stm.initial ls).here ≤ stm.maxState

/-- An event finds the machine in the state of its itinerary, arrived at. -/
theorem found_recorded {s : StateMachine × κ × List HookCall} {start : κ × List HookCall}
    (named : Correlative states stm)
    (recorded : Recorded states stm ls s) (found : Found (loggedTable states) s.1 s.2 i start) :
    i = (itinerary stm.initial ls).here ∧ start.2 = (itinerary stm.initial ls).calls states := by
  have machine := recorded.machine
  have calls := recorded.calls
  rcases found with ⟨current, rfl⟩ | ⟨current, rfl, e, found, arrived⟩
  · have some' : ls ≠ [] := by
      rintro rfl
      rw [machine] at current
      cases current
    rw [machine, if_neg some'] at current
    rw [if_neg some'] at calls
    exact ⟨(Option.some.inj current).symm, calls⟩
  · have none' : ls = [] := by
      by_contra some'
      rw [machine, if_neg some'] at current
      cases current
    subst none'
    have initial : s.1.initial = stm.initial := by rw [machine]
    rw [initial] at found ⊢
    obtain ⟨d, place, name, rfl⟩ := named_logged named recorded.here found
    refine ⟨rfl, ?_⟩
    rw [arrival_ok place name arrived, calls, if_pos rfl]
    simp [Itinerary.calls, itinerary, stayCalls]

/-- One event adds its calls. -/
theorem step_recorded {s t : StateMachine × κ × List HookCall}
    (named : Correlative states stm)
    (recorded : Recorded states stm ls s) (step : EventStep (loggedTable states) s l t) :
    Recorded states stm (ls ++ [l]) t := by
  obtain ⟨e, r⟩ := l
  obtain ⟨stm', k', log'⟩ := t
  rw [EventStep, handle_eq] at step
  obtain ⟨i, d', handler, start, mid, found, present, picked, handled, bound, rfl, moved⟩ :=
    stmHandler_ok step
  obtain ⟨rfl, calls⟩ := found_recorded named recorded found
  obtain ⟨d, present, name, rfl⟩ := named_logged named recorded.here present
  rw [pick_logged, Option.map_eq_some_iff] at picked
  obtain ⟨f, _, rfl⟩ := picked
  obtain ⟨⟨r', k''⟩, _, handled⟩ := bind_eq_ok.mp handled
  obtain ⟨rfl, rfl⟩ := Prod.mk.inj (Except.ok.inj handled)
  have most : s.1.maxState = stm.maxState := by rw [recorded.machine]
  rw [most] at bound
  have after : (itinerary stm.initial (ls ++ [(e, r')])).here = r' := by
    rw [(itinerary_proper _ _).here]
    simp
  have some' : ls ++ [(e, r')] ≠ [] := by simp
  refine ⟨?_, ?_, by rw [after]; exact bound⟩
  · rw [recorded.machine, if_neg some', after]
  · rw [if_neg some', itinerary_snoc, next_calls, ← calls]
    rcases moved with ⟨same, kept⟩ | ⟨other, d', e', between, from', to', departed, arrived⟩
    · rw [if_pos same]
      exact congrArg Prod.snd kept |>.trans (by rw [name])
    · obtain ⟨_, present', name', rfl⟩ := named_logged named recorded.here from'
      obtain ⟨_, present'', name'', rfl⟩ := named_logged named bound to'
      rw [if_neg other, arrival_ok present'' name'' arrived, departure_ok present' name' departed, name]
      simp

/-! ## The log changes nothing -/

/-- A step that commutes with a map, behind one that does. -/
theorem map_bind_comm {α β γ δ : Type} {x : Result α} {y : Result γ} {f : α → γ} {f' : β → δ}
    {g : α → Result β} {g' : γ → Result δ} (first : x.map f = y)
    (next : ∀ a, (g a).map f' = g' (f a)) : (x >>= g).map f' = y >>= g' := by
  subst first
  cases x with
  | error e => rfl
  | ok a => exact next a

theorem stateAt_comm {β δ : Type} {f : β → δ} {g : StateDefinition (κ × List HookCall) → Result β}
    {g' : StateDefinition κ → Result δ} (next : ∀ d, (g d.logged).map f = g' d) :
    (stateAt (loggedTable states) i >>= g).map f = stateAt states i >>= g' := by
  unfold stateAt
  rw [loggedTable, List.getElem?_map]
  cases states[i]? with
  | none => rfl
  | some d => exact next d

theorem runHook_logged {hook : Option (κ → Result κ)} {call : HookCall} (s : κ × List HookCall) :
    (runHook (hook.map (loggedHook call)) s).map Prod.fst = runHook hook s.1 := by
  cases hook with
  | none => rfl
  | some f =>
    show (f s.1 >>= _).map _ = f s.1
    cases f s.1 <;> rfl

theorem handleFirst_logged (stm : StateMachine) (s : κ × List HookCall) :
    (handleFirst (loggedTable states) stm s).map (fun r => (r.1, r.2.1)) =
      handleFirst states stm s.1 := by
  unfold handleFirst
  cases stm.current with
  | some => rfl
  | none => exact stateAt_comm fun _ => map_bind_comm (runHook_logged s) fun _ => rfl

theorem jump_logged (stm : StateMachine) (next : Nat) (s : κ × List HookCall) :
    (jump (loggedTable states) stm next s).map (fun r => (r.1, r.2.1)) =
      jump states stm next s.1 := by
  unfold jump
  split
  · rfl
  · split
    · rfl
    · have arrive (s : κ × List HookCall) :
          (stateAt (loggedTable states) next >>= fun d => runHook d.onArrival s >>= fun k =>
            .ok ({ stm with current := some next }, k)).map (fun r => (r.1, r.2.1)) =
          (stateAt states next >>= fun d => runHook d.onArrival s.1 >>= fun k =>
            .ok ({ stm with current := some next }, k)) :=
        stateAt_comm fun _ => map_bind_comm (runHook_logged s) fun _ => rfl
      cases stm.current with
      | none => exact arrive s
      | some i =>
        exact stateAt_comm fun _ => map_bind_comm (runHook_logged s) fun s => arrive s

theorem stmHandler_logged (e : StmEvent) (stm : StateMachine) (s : κ × List HookCall) :
    (stmHandler e.pick (loggedTable states) stm s).map (fun r => (r.1, r.2.1, r.2.2.1)) =
      stmHandler e.pick states stm s.1 := by
  refine map_bind_comm (handleFirst_logged stm s) fun ⟨stm, s⟩ => ?_
  dsimp only
  cases stm.current with
  | none => rfl
  | some i =>
    refine stateAt_comm fun d => ?_
    rw [pick_logged]
    cases e.pick d with
    | none => rfl
    | some f =>
      have handled : (loggedHandler (.handler e d.state) f s).map (fun r => (r.1, r.2.1)) = f s.1 := by
        unfold loggedHandler
        cases f s.1 <;> rfl
      refine map_bind_comm handled fun ⟨ret, s⟩ => ?_
      exact map_bind_comm (jump_logged stm ret s) fun _ => rfl

/-- An event does the same with a log as without one. -/
theorem eventStep_logged {s : StateMachine × κ} {t : StateMachine × κ}
    (step : EventStep states s l t) (log : List HookCall) :
    ∃ log', EventStep (loggedTable states) (s.1, s.2, log) l (t.1, t.2, log') := by
  unfold EventStep at step ⊢
  rw [handle_eq] at step ⊢
  have same : _ = stmHandler l.1.pick states s.1 s.2 := stmHandler_logged l.1 s.1 (s.2, log)
  rw [step] at same
  simp only
  cases ran : stmHandler l.1.pick (loggedTable states) s.1 (s.2, log) with
  | error e => rw [ran] at same; cases same
  | ok r =>
    obtain ⟨ret, stm, k, log'⟩ := r
    rw [ran] at same
    obtain ⟨rfl, rfl⟩ := Prod.mk.inj (Except.ok.inj same)
    exact ⟨log', rfl⟩

/-! ## Events whose handlers exist -/

/-- The hooks return, and the handlers return states up to the last. -/
structure Returns (states : List (StateDefinition κ)) (maxState : Nat) : Prop where
  hooks : ∀ d ∈ states, ∀ f, d.onArrival = some f ∨ d.onDeparture = some f →
    ∀ k, ∃ k', f k = .ok k'
  handlers : ∀ d ∈ states, ∀ (e : StmEvent) f, e.pick d = some f →
    ∀ k, ∃ r k', f k = .ok (r, k') ∧ r ≤ maxState

theorem hook_returns {hook : Option (κ → Result κ)}
    (returns : ∀ f, hook = some f → ∀ k, ∃ k', f k = .ok k') (k : κ) : ∃ k', runHook hook k = .ok k' := by
  cases hook with
  | none => exact ⟨k, rfl⟩
  | some f => exact returns f rfl k

theorem handleFirst_returns (returns : Returns states stm.maxState)
    (found : states[stmState stm]? = some d) (k : κ) :
    ∃ k', handleFirst states stm k = .ok ({ stm with current := some (stmState stm) }, k') := by
  obtain ⟨initial, maxState, current⟩ := stm
  cases current with
  | some i => exact ⟨k, rfl⟩
  | none =>
    have here : stateAt states initial = .ok d := stateAt_ok.mpr found
    have member : d ∈ states := List.mem_of_getElem? found
    obtain ⟨k', arrived⟩ := hook_returns (fun f h => returns.hooks d member f (.inl h)) k
    exact ⟨k', by simp [handleFirst, here, arrived, stmState]⟩

theorem jump_returns (named : Correlative states stm) (returns : Returns states stm.maxState)
    (current : stm.current = some i) (most : i ≤ stm.maxState) {next : Nat}
    (bound : next ≤ stm.maxState) (k : κ) :
    ∃ k', jump states stm next k = .ok ({ stm with current := some next }, k') := by
  unfold jump
  rw [if_neg (Nat.not_lt.mpr bound)]
  split
  · rename_i same
    exact ⟨k, by simp [← same]⟩
  · obtain ⟨d, found, _⟩ := named i most
    obtain ⟨e, found', _⟩ := named next bound
    obtain ⟨mid, departed⟩ :=
      hook_returns (fun f h => returns.hooks d (List.mem_of_getElem? found) f (.inr h)) k
    obtain ⟨k', arrived⟩ :=
      hook_returns (fun f h => returns.hooks e (List.mem_of_getElem? found') f (.inl h)) mid
    refine ⟨k', ?_⟩
    simp only [current, stateAt_ok.mpr found, ok_bind, departed, stateAt_ok.mpr found', arrived]

/-- The event is handled when the current state has a handler for it. -/
theorem event_returns (named : Correlative states stm) (returns : Returns states stm.maxState)
    (most : stmState stm ≤ stm.maxState) (found : states[stmState stm]? = some d) {e : StmEvent}
    (exists' : (e.pick d).isSome) (k : κ) : ∃ r t, EventStep states (stm, k) (e, r) t := by
  obtain ⟨f, picked⟩ := Option.isSome_iff_exists.mp exists'
  obtain ⟨start, first⟩ := handleFirst_returns returns found k
  obtain ⟨r, mid, handled, bound⟩ := returns.handlers d (List.mem_of_getElem? found) e f picked start
  obtain ⟨k', jumped⟩ :=
    @jump_returns _ states { stm with current := some (stmState stm) } _ named returns rfl most r bound mid
  refine ⟨r, ({ stm with current := some r }, k'), ?_⟩
  rw [EventStep, handle_eq]
  simp only [stmHandler, first, ok_bind, stateAt_ok.mpr found, picked, handled, jumped]

/-! ## The bracketing -/

theorem run_recorded {s : StateMachine × κ × List HookCall} {k : κ}
    {steps : List ((StateMachine × κ × List HookCall) × StmEvent × Nat)} (named : Correlative states stm)
    (below : stm.initial < stm.maxState) (unset : stm.current = none)
    (run : Run (EventStep (loggedTable states)) (stm, k, []) steps s) :
    Recorded states stm (steps.map Prod.snd) s := by
  induction run with
  | start => exact ⟨by simp [← unset], rfl, Nat.le_of_lt below⟩
  | next _ step ih =>
    rw [List.map_append]
    exact step_recorded named ih step

theorem run_logged {s t : StateMachine × κ} {steps : List ((StateMachine × κ) × StmEvent × Nat)}
    (run : Run (EventStep states) s steps t) :
    ∃ logged log, Run (EventStep (loggedTable states)) (s.1, s.2, []) logged (t.1, t.2, log) ∧
      logged.map Prod.snd = steps.map Prod.snd := by
  induction run with
  | start => exact ⟨[], [], .start, rfl⟩
  | next _ step ih =>
    obtain ⟨logged, log, ran, labels⟩ := ih
    obtain ⟨log', step'⟩ := eventStep_logged step log
    exact ⟨_, log', ran.next step', by simp [labels]⟩

/-- What the hooks and handlers write down in a run with these events. -/
def Logs (states : List (StateDefinition κ)) (s : StateMachine × κ) (ls : List (StmEvent × Nat))
    (t : StateMachine × κ) (log : List HookCall) : Prop :=
  ∃ steps, Run (EventStep (loggedTable states)) (s.1, s.2, []) steps (t.1, t.2, log) ∧
    steps.map Prod.snd = ls

/-- After any events the calls are those of the itinerary, `stm_state` is where it is,
and the next event is handled if the state has a handler for it. -/
theorem hooks_bracketed {before : StateMachine} {s : StateMachine × κ}
    {steps : List ((StateMachine × κ) × StmEvent × Nat)} (accepted : stmInit states before = .ok stm)
    (run : Run (EventStep states) (stm, k) steps s) :
    (∃ log, Logs states (stm, k) (steps.map Prod.snd) s log) ∧
    (∀ log, Logs states (stm, k) (steps.map Prod.snd) s log →
      log = if steps = [] then [] else (itinerary stm.initial (steps.map Prod.snd)).calls states) ∧
    stmState s.1 = (itinerary stm.initial (steps.map Prod.snd)).here ∧
    (itinerary stm.initial (steps.map Prod.snd)).Proper stm.initial (steps.map Prod.snd) ∧
    (Returns states stm.maxState → ∀ (e : StmEvent) d, states[stmState s.1]? = some d →
      (e.pick d).isSome → ∃ r t, EventStep states s (e, r) t) := by
  obtain ⟨below, unset, named⟩ := stmInit_ok accepted
  obtain ⟨logged, log, ran, labels⟩ := run_logged run
  have recorded := run_recorded named below unset ran
  rw [labels] at recorded
  have machine : s.1 = _ := recorded.machine
  have state : stmState s.1 = (itinerary stm.initial (steps.map Prod.snd)).here := by
    rw [machine, stmState]
    cases steps with
    | nil => rfl
    | cons => rfl
  refine ⟨⟨log, logged, ran, labels⟩, ?_, state, itinerary_proper _ _, ?_⟩
  · rintro log' ⟨logged', ran', labels'⟩
    have recorded' := run_recorded named below unset ran'
    have calls : log' = _ := recorded'.calls
    rw [labels'] at calls
    simpa using calls
  · intro returns e d found exists'
    have last : s.1.maxState = stm.maxState := by rw [machine]
    have named' : Correlative states s.1 := by rw [Correlative, last]; exact named
    refine event_returns named' (last ▸ returns) ?_ found exists' s.2
    rw [state, last]
    exact recorded.here

end

/-! The machine of the tests, whose handlers go on to the next state. -/

def testDefinition (i : Nat) : StateDefinition Nat where
  state := i
  onArrival := some .ok
  onDeparture := some .ok
  onReadReady := some fun k => .ok (if k < 2 then (k + 1, k + 1) else (2, k))
  onWriteReady := some fun k => .ok (if k < 2 then (k + 1, k + 1) else (2, k))
  onBlockReady := none

def testTable : List (StateDefinition Nat) := [testDefinition 0, testDefinition 1, testDefinition 2]

/-- A read leads to the second state, and a write to the third. -/
theorem hooks_bracketed_test : ∃ s log, Logs testTable (⟨0, 2, none⟩, 0)
      [(.readReady, 1), (.writeReady, 2)] s log ∧ stmState s.1 = 2 ∧
    log = [.arrival 0, .handler .readReady 0, .departure 0, .arrival 1, .handler .writeReady 1,
      .departure 1, .arrival 2] := by
  have first : EventStep testTable (⟨0, 2, none⟩, 0) (.readReady, 1) (⟨0, 2, some 1⟩, 1) := rfl
  have second : EventStep testTable (⟨0, 2, some 1⟩, 1) (.writeReady, 2) (⟨0, 2, some 2⟩, 2) := rfl
  have run := (Run.single first).next second
  have accepted : stmInit testTable ⟨0, 2, none⟩ = .ok ⟨0, 2, none⟩ := rfl
  obtain ⟨⟨log, logs⟩, calls, state, _⟩ := hooks_bracketed accepted run
  exact ⟨_, log, logs, state, calls log logs⟩

end SocksProxy
