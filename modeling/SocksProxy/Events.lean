import SocksProxy.Lib.Run
import SocksProxy.Server

/-!
# What an event does to a session

`handleEvent_ok` reads an event as: the state it finds, the handler of that
state, the hooks between it and the state returned, and the end of the
connection when that state is terminal.
-/

namespace SocksProxy

open Lib

def Step (s : Session) (l : Label) (t : Session) : Prop := fire l s = .ok t

/-- DONE or ERROR of the connection's own table. -/
def Terminal (isSocks : Bool) (n : Nat) : Prop :=
  if isSocks then n = SocksV5State.error.num ∨ n = SocksV5State.done.num
  else n = MngState.error.num ∨ n = MngState.done.num

instance (isSocks : Bool) (n : Nat) : Decidable (Terminal isSocks n) := by
  unfold Terminal
  exact inferInstance

/-- `socksv5_done` or `mng_done`. -/
def finish (isSocks : Bool) (c : Conn) : Result Conn :=
  if isSocks then socksv5Done c else mngDone c

theorem handleEvent_ok {e : Event} {o : Outcome} {fd : Int} {s t : Session}
    (h : handleEvent e o fd s = .ok t) :
    ∃ i d handler start ret mid last,
      Found (statesOf s.conn.isSocks o fd) s.stm s.conn i start ∧
      (statesOf s.conn.isSocks o fd)[i]? = some d ∧ e.handler d = some handler ∧
      handler start = .ok (ret, mid) ∧ t.stm = { s.stm with current := some ret } ∧
      (ret = i ∧ last = mid ∨
        ret ≠ i ∧ Crosses (statesOf s.conn.isSocks o fd) i ret mid last) ∧
      (Terminal s.conn.isSocks ret ∧ finish s.conn.isSocks last = .ok t.conn ∨
        ¬ Terminal s.conn.isSocks ret ∧ t.conn = last) := by
  simp only [handleEvent] at h
  obtain ⟨⟨ret, stm, last⟩, handled, h⟩ := bind_eq_ok.mp h
  obtain ⟨i, d, handler, start, mid, found, present, picked, ran, -, rfl, moved⟩ :=
    stmHandler_ok handled
  refine ⟨i, d, handler, start, ret, mid, last, found, present, picked, ran, ?_⟩
  unfold Terminal finish
  cases kind : s.conn.isSocks <;>
    simp only [kind, if_true, if_false, Bool.false_eq_true] at h moved ⊢
  all_goals
    split at h
    · rename_i terminal
      obtain ⟨c, ended, h⟩ := bind_eq_ok.mp h
      simp only [Except.ok.injEq] at h
      subst h
      exact ⟨rfl, moved, Or.inl ⟨terminal, ended⟩⟩
    · rename_i going
      simp only [Except.ok.injEq] at h
      subst h
      exact ⟨rfl, moved, Or.inr ⟨going, rfl⟩⟩

/-- The session is in a state of `client_statbl`. -/
def Session.In (s : Session) (state : SocksV5State) : Prop :=
  s.conn.isSocks = true ∧ s.stm.current = some state.num

instance (s : Session) (state : SocksV5State) : Decidable (s.In state) := by
  unfold Session.In
  exact inferInstance

/-- The session is in a state of `client_mng`. -/
def Session.InMng (s : Session) (state : MngState) : Prop :=
  s.conn.isSocks = false ∧ s.stm.current = some state.num

theorem found_of_current {κ : Type} {states : List (StateDefinition κ)} {stm : StateMachine}
    {k start : κ} {i n : Nat} (h : Found states stm k i start) (current : stm.current = some n) :
    i = n ∧ start = k := by
  rcases h with ⟨at', rfl⟩ | ⟨none', _⟩
  · exact ⟨Option.some.inj (at'.symm.trans current), rfl⟩
  · rw [current] at none'
    cases none'

/-! ## Events of a table -/

section
variable (o : Outcome) (fd : Int)

def SocksV5State.entry (state : SocksV5State) : StateDefinition Conn :=
  (clientStatbl o fd).getD state.num (SocksProxy.entry state.num)

def MngState.entry (state : MngState) : StateDefinition Conn :=
  (clientMng o fd).getD state.num (SocksProxy.entry state.num)

theorem clientStatbl_get (state : SocksV5State) :
    (clientStatbl o fd)[state.num]? = some (state.entry o fd) := by
  cases state <;> rfl

theorem clientMng_get (state : MngState) : (clientMng o fd)[state.num]? = some (state.entry o fd) := by
  cases state <;> rfl

end

section
variable {o : Outcome} {fd : Int}

theorem clientStatbl_state {n : Nat} {d : StateDefinition Conn}
    (h : (clientStatbl o fd)[n]? = some d) : ∃ state : SocksV5State, n = state.num := by
  obtain ⟨bound, -⟩ := List.getElem?_eq_some_iff.mp h
  match n, bound with
  | 0, _ => exact ⟨.helloRead, rfl⟩
  | 1, _ => exact ⟨.helloWrite, rfl⟩
  | 2, _ => exact ⟨.userpassRead, rfl⟩
  | 3, _ => exact ⟨.userpassWrite, rfl⟩
  | 4, _ => exact ⟨.requestRead, rfl⟩
  | 5, _ => exact ⟨.requestResolv, rfl⟩
  | 6, _ => exact ⟨.requestConnecting, rfl⟩
  | 7, _ => exact ⟨.requestWrite, rfl⟩
  | 8, _ => exact ⟨.copy, rfl⟩
  | 9, _ => exact ⟨.done, rfl⟩
  | 10, _ => exact ⟨.error, rfl⟩
  | n + 11, bound => simp only [clientStatbl, List.length_cons, List.length_nil] at bound; omega

theorem SocksV5State.num_inj {x y : SocksV5State} (h : x.num = y.num) : x = y := by
  revert h
  cases x <;> cases y <;> first | exact fun _ => rfl | (intro h; exact absurd h (by decide))

/-- From `mid`, which the handler of `state` left, to the session `t` in `next`:
the hooks between the two, and the end of the connection in DONE or ERROR. -/
structure Enters (state next : SocksV5State) (o : Outcome) (fd : Int) (mid : Conn) (t : Session) :
    Prop where
  hooks : ∃ last, (state = next ∧ last = mid ∨ state ≠ next ∧ ∃ left,
      runHook (state.entry o fd).onDeparture mid = .ok left ∧
        runHook (next.entry o fd).onArrival left = .ok last) ∧
    ((next = .done ∨ next = .error) ∧ socksv5Done last = .ok t.conn ∨
      next ≠ .done ∧ next ≠ .error ∧ t.conn = last)

/-- An event of a session in a state of `client_statbl`. -/
theorem socks_event {e : Event} {s t : Session} {state : SocksV5State} (at' : s.In state)
    (h : handleEvent e o fd s = .ok t) :
    ∃ handler mid next, e.handler (state.entry o fd) = some handler ∧
      handler s.conn = .ok (next.num, mid) ∧ t.stm = { s.stm with current := some next.num } ∧
      Enters state next o fd mid t := by
  obtain ⟨i, d, handler, start, ret, mid, last, found, present, picked, ran, stm, moved, ended⟩ :=
    handleEvent_ok h
  obtain ⟨rfl, rfl⟩ := found_of_current found at'.2
  simp only [statesOf, at'.1, if_true] at present moved ended
  obtain rfl : state.entry o fd = d := Option.some.inj ((clientStatbl_get o fd state).symm.trans present)
  obtain ⟨next, rfl, crossed⟩ : ∃ next : SocksV5State, ret = next.num ∧
      (state = next ∧ last = mid ∨ state ≠ next ∧ ∃ left,
        runHook (state.entry o fd).onDeparture mid = .ok left ∧
          runHook (next.entry o fd).onArrival left = .ok last) := by
    rcases moved with ⟨rfl, same⟩ | ⟨ne, d, e', left, found', found'', departed, arrived⟩
    · exact ⟨state, rfl, Or.inl ⟨rfl, same⟩⟩
    · obtain ⟨next, rfl⟩ := clientStatbl_state found''
      rw [clientStatbl_get, Option.some.injEq] at found' found''
      subst found' found''
      exact ⟨next, rfl, Or.inr ⟨fun same => ne (by rw [same]), left, departed, arrived⟩⟩
  refine ⟨handler, mid, next, picked, ran, stm, last, crossed, ?_⟩
  rcases ended with ⟨terminal, ended⟩ | ⟨going, same⟩
  · refine Or.inl ⟨?_, ended⟩
    rcases terminal with eq | eq
    · exact Or.inr (SocksV5State.num_inj eq)
    · exact Or.inl (SocksV5State.num_inj eq)
  · refine Or.inr ⟨?_, ?_, same⟩
    · rintro rfl
      exact going (Or.inr rfl)
    · rintro rfl
      exact going (Or.inl rfl)

/-- The first event of a machine arrives in HELLO_READ before it is handled. -/
theorem first_event {e : Event} {s t : Session} (first : s.stm.current = none)
    (initial : s.stm.initial = SocksV5State.helloRead.num) (h : handleEvent e o fd s = .ok t) :
    ∃ start, helloReadInit o fd s.conn = .ok start ∧
      handleEvent e o fd ⟨{ s.stm with current := some SocksV5State.helloRead.num }, start⟩ = .ok t := by
  have arrives : stateAt (statesOf s.conn.isSocks o fd) s.stm.initial >>=
      (fun d => runHook d.onArrival s.conn) = helloReadInit o fd s.conn := by
    rw [initial]
    unfold statesOf
    cases s.conn.isSocks <;> rfl
  unfold handleEvent stmHandler handleFirst at h
  simp only [first, bind_assoc] at h
  rw [← bind_assoc, arrives] at h
  obtain ⟨start, init, h⟩ := bind_eq_ok.mp h
  have socks : start.isSocks = s.conn.isSocks := by
    rcases helloReadInit_ok init with rfl | rfl <;> rfl
  refine ⟨start, init, ?_⟩
  simp only [ok_bind, bind_assoc, initial] at h
  unfold handleEvent stmHandler handleFirst
  simp only [socks, ok_bind, bind_assoc, initial]
  exact h

end

/-! ## The end of a connection -/

/-- The calls that end a connection. -/
def Call.Ending (call : Call) : Prop := call = .released ∨ ∃ fd, call = .close fd

/-- Of the record, ending a connection changes the references and the history. -/
def EndsTo (c c' : Socks5) : Prop :=
  ∃ references ended, c' = { c with references := references, calls := c.calls ++ ended } ∧
    ∀ call ∈ ended, call.Ending

theorem EndsTo.refl (c : Socks5) : EndsTo c c :=
  ⟨c.references, [], by rw [List.append_nil], fun _ member => nomatch member⟩

theorem EndsTo.trans {c d e : Socks5} (h : EndsTo c d) (k : EndsTo d e) : EndsTo c e := by
  obtain ⟨r, xs, rfl, hx⟩ := h
  obtain ⟨r', ys, rfl, hy⟩ := k
  refine ⟨r', xs ++ ys, by rw [← List.append_assoc], fun call member => ?_⟩
  rcases List.mem_append.mp member with member | member
  · exact hx call member
  · exact hy call member

theorem EndsTo.logged {c : Socks5} {references : Nat} {call : Call} (h : call.Ending) :
    EndsTo c { c with references := references, calls := c.calls ++ [call] } :=
  ⟨references, [call], rfl, fun _ member => List.mem_singleton.mp member ▸ h⟩

theorem handleClose_record (item : Item) (c : Conn) :
    EndsTo c.toSocks5 (handleClose item c).toSocks5 := by
  have counted (n : Nat) : EndsTo c.toSocks5 { c.toSocks5 with references := n } :=
    ⟨n, [], by rw [List.append_nil], fun _ member => nomatch member⟩
  unfold handleClose
  cases item.handler with
  | socks5 =>
    simp only [socks5Destroy]
    split
    · split
      · exact .logged (Or.inl rfl)
      · exact counted _
    · exact .refl _
  | mng =>
    simp only [mngDestroy]
    split
    · split
      · exact .logged (Or.inl rfl)
      · exact counted _
    · exact .refl _
  | socksPassive => exact .refl _
  | mngPassive => exact .refl _

theorem unregister_record (c : Conn) (fd : Int) :
    EndsTo c.toSocks5 (c.unregister fd).2.toSocks5 := by
  have eq := (unregister_eq handleClose c.sel c fd).2.2.2.2
  have record : (c.unregister fd).2.toSocks5 =
      (selectorUnregisterFd handleClose c.sel c fd).2.2.toSocks5 := rfl
  rw [record, eq]
  split
  · exact handleClose_record _ c
  · exact .refl _

theorem doneFd_record {fd : Int} {c c' : Conn} (h : doneFd fd c = .ok c') :
    EndsTo c.toSocks5 c'.toSocks5 := by
  simp only [doneFd] at h
  split at h
  · split at h
    · simp only [Except.ok.injEq] at h
      subst h
      exact (unregister_record c fd).trans (.logged (Or.inr ⟨fd, rfl⟩))
    · cases h
  · simp only [Except.ok.injEq] at h
    subst h
    exact .refl _

theorem finish_record {isSocks : Bool} {c c' : Conn} (h : finish isSocks c = .ok c') :
    EndsTo c.toSocks5 c'.toSocks5 := by
  unfold finish at h
  split at h
  · simp only [socksv5Done] at h
    obtain ⟨d, first, second⟩ := bind_eq_ok.mp h
    exact (doneFd_record first).trans (doneFd_record second)
  · exact doneFd_record h

theorem received_ending {fd : Int} {ended : List Call} (h : ∀ call ∈ ended, call.Ending) :
    receivedFrom fd ended = [] := by
  unfold receivedFrom
  rw [List.flatMap_eq_nil_iff]
  intro call member
  rcases h call member with rfl | ⟨_, rfl⟩ <;> rfl

theorem sent_ending {fd : Int} {ended : List Call} (h : ∀ call ∈ ended, call.Ending) :
    sentTo fd ended = [] := by
  unfold sentTo
  rw [List.flatMap_eq_nil_iff]
  intro call member
  rcases h call member with rfl | ⟨_, rfl⟩ <;> rfl

end SocksProxy
