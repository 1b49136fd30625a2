import SocksProxy.Negotiation

/-!
# Management requests

The states of `client_mng` past the negotiation. Each handler only watches for what
the state it returns has a handler for.
-/

namespace SocksProxy

open Lib

/-- A call that moves bytes. -/
def Call.Moving (call : Call) : Prop := ∃ fd got, call = .recv fd got ∨ call = .send fd got

/-- What the handlers and hooks of a management request leave of a record. -/
structure Conn.Managed (c : Conn) (fd : Int) (c' : Conn) : Prop where
  same : c.Same c'
  tuned : c.sel.Retuned [fd] c'.sel
  method : c.authMethod = 0x00 ∨ c.authMethod = 0x02 → c'.authMethod = 0x00 ∨ c'.authMethod = 0x02
  calls : ∃ more, c'.calls = c.calls ++ more ∧ ∀ call ∈ more, call.Moving

section
variable {o : Outcome} {fd : Int} {c d e : Conn} {ret : Nat} {x : MngRequestSt}

theorem mngRequest_ok {c : Socks5} : c.mngRequest = .ok x ↔ c.client = .mngRequest x := by
  unfold Socks5.mngRequest
  cases c.client <;> simp

theorem Conn.Managed.trans (h : c.Managed fd d) (k : d.Managed fd e) : c.Managed fd e := by
  obtain ⟨xs, hx, moving⟩ := h.calls
  obtain ⟨ys, hy, moving'⟩ := k.calls
  have tuned := h.tuned.trans k.tuned
  refine ⟨h.same.trans k.same, ⟨tuned.size, tuned.jobs, tuned.slot, fun f out => ?_⟩,
    fun good => k.method (h.method good), xs ++ ys, ?_, ?_⟩
  · exact tuned.outside f (by simpa using out)
  · rw [hy, hx, List.append_assoc]
  · intro call member
    rcases List.mem_append.mp member with member | member
    · exact moving call member
    · exact moving' call member

/-- A change of the client's union, the buffers and the tables, with calls that move bytes. -/
theorem managed_fields {m : List Call} (same : c.Same d) (sel : d.sel = c.sel)
    (method : d.authMethod = c.authMethod) (calls : d.calls = c.calls ++ m)
    (moving : ∀ call ∈ m, call.Moving) : c.Managed fd d :=
  ⟨same, by rw [sel]; exact .refl _ _, by rw [method]; exact id, m, calls, moving⟩

theorem managed_setInterest (c : Conn) (fd : Int) (i : FdInterest) :
    c.Managed fd (c.setInterest fd i) :=
  ⟨setInterest_same c fd i, setInterest_retuned _ _ _, id, [], (List.append_nil _).symm,
    fun _ member => nomatch member⟩

theorem mngReplyStatus_managed (x : MngRequestSt) (status : MngReplyStatus) (fd : Int) (c : Conn) :
    c.Managed fd (mngReplyStatus x status fd c).2 := by
  refine Conn.Managed.trans (d := { c with
    client := .mngRequest { x with status := status }
    writeBuffer := statusMngMarshal c.writeBuffer status }) ?_ (managed_setInterest _ fd opWrite)
  exact managed_fields (m := []) ⟨rfl, rfl, rfl, rfl, rfl, rfl, rfl, rfl⟩ rfl rfl
    (List.append_nil _).symm (fun _ member => nomatch member)

/-- What a management state waits for. -/
def MngState.watches : MngState → FdInterest
  | .requestWrite => opWrite
  | _ => opRead

/-- Where a request goes on: a state that the descriptor is watched for, or the end. -/
def MngOn (fd : Int) (c : Conn) (ret : Nat) : Prop :=
  ret = MngState.error.num ∨ ret = MngState.done.num ∨ ∃ next : MngState, ret = next.num ∧
    next ∈ [MngState.requestReadIndex, .requestRead, .requestWrite] ∧ c.interestOf fd = next.watches

theorem mngOn_setInterest {i : MngState}
    (listed : i ∈ [MngState.requestReadIndex, .requestRead, .requestWrite]) :
    MngOn fd (c.setInterest fd i.watches)
      (if c.interestStatus fd i.watches = .success then i.num else MngState.error.num) := by
  split
  · rename_i accepted
    refine Or.inr (Or.inr ⟨i, rfl, listed, ?_⟩)
    exact interestOf_setInterest (interestStatus_success.mp accepted)
  · exact Or.inl rfl

theorem mngReplyStatus_on (x : MngRequestSt) (status : MngReplyStatus) (fd : Int) (c : Conn) :
    MngOn fd (mngReplyStatus x status fd c).2 (mngReplyStatus x status fd c).1 :=
  mngOn_setInterest (i := .requestWrite) (by decide)

/-- The record after `recv` gave `bytes` to the parser of a request. -/
def mngFed (fd : Int) (c : Conn) (x : MngRequestSt) (bytes : List UInt8) (rb : Buffer) (p : Parser) :
    Conn :=
  { c with readBuffer := rb, client := .mngRequest { x with parser := .live (.ready p) } }.log
    (.recv fd (some bytes))

theorem mngFed_managed (x : MngRequestSt) (bytes : List UInt8) (rb : Buffer) (p : Parser) :
    c.Managed fd (mngFed fd c x bytes rb p) :=
  managed_fields ⟨rfl, rfl, rfl, rfl, rfl, rfl, rfl, rfl⟩ rfl rfl rfl
    (fun _ member => ⟨fd, _, Or.inl (List.mem_singleton.mp member)⟩)

theorem recv_managed (c : Conn) (fd : Int) (got : Option (List UInt8)) :
    c.Managed fd (c.log (.recv fd got)) :=
  managed_fields ⟨rfl, rfl, rfl, rfl, rfl, rfl, rfl, rfl⟩ rfl rfl rfl
    (fun _ member => ⟨fd, _, Or.inl (List.mem_singleton.mp member)⟩)

theorem processMngIndex_next {index : UInt8} {next : MngState} {wb : Buffer}
    (h : processMngIndex c index = .ok (next, wb)) :
    next = .requestWrite ∨ next = .requestRead ∨ next = .error := by
  unfold processMngIndex at h
  split at h
  · exact Or.inl (congrArg Prod.fst (Except.ok.inj h)).symm
  · obtain ⟨wb', -, h⟩ := bind_eq_ok.mp h
    exact Or.inl (congrArg Prod.fst (Except.ok.inj h)).symm
  · split at h
    · exact Or.inl (congrArg Prod.fst (Except.ok.inj h)).symm
    · exact Or.inr (Or.inl (congrArg Prod.fst (Except.ok.inj h)).symm)
  · exact Or.inr (Or.inr (congrArg Prod.fst (Except.ok.inj h)).symm)

theorem mngRequestIndexRead_managed (watched : c.interestOf fd = opRead)
    (h : mngRequestIndexRead o fd c = .ok (ret, d)) : c.Managed fd d ∧ MngOn fd d ret := by
  simp only [mngRequestIndexRead] at h
  obtain ⟨x, -, h⟩ := bind_eq_ok.mp h
  split at h
  · obtain ⟨rfl, rfl⟩ := Prod.mk.inj (Except.ok.inj h)
    exact ⟨mngReplyStatus_managed _ _ _ _, mngReplyStatus_on _ _ _ _⟩
  · split at h
    · obtain ⟨rfl, rfl⟩ := Prod.mk.inj (Except.ok.inj h)
      exact ⟨mngReplyStatus_managed _ _ _ _, mngReplyStatus_on _ _ _ _⟩
    · split at h
      · obtain ⟨rfl, rfl⟩ := Prod.mk.inj (Except.ok.inj h)
        exact ⟨recv_managed _ _ _, Or.inl rfl⟩
      · obtain ⟨rfl, rfl⟩ := Prod.mk.inj (Except.ok.inj h)
        exact ⟨recv_managed _ _ _, Or.inl rfl⟩
      · rename_i b bytes got
        obtain ⟨p, -, h⟩ := bind_eq_ok.mp h
        obtain ⟨⟨rb, p', state, error⟩, -, h⟩ := bind_eq_ok.mp h
        have fed : c.Managed fd (mngFed fd c x (b :: bytes) rb p') := mngFed_managed _ _ _ _
        split at h
        · split at h
          · obtain ⟨rfl, rfl⟩ := Prod.mk.inj (Except.ok.inj h)
            exact ⟨fed.trans (mngReplyStatus_managed _ _ _ _), mngReplyStatus_on _ _ _ _⟩
          · obtain ⟨result, -, h⟩ := bind_eq_ok.mp h
            obtain ⟨block, -, h⟩ := bind_eq_ok.mp h
            obtain ⟨⟨next, wb⟩, processed, h⟩ := bind_eq_ok.mp h
            have answered : (mngFed fd c x (b :: bytes) rb p').Managed fd
                { mngFed fd c x (b :: bytes) rb p' with
                  client := .mngRequest { x with
                    parser := .live (.ready p'), index := block.getD 0 0 }, writeBuffer := wb } :=
              managed_fields ⟨rfl, rfl, rfl, rfl, rfl, rfl, rfl, rfl⟩ rfl rfl
                (List.append_nil _).symm (fun _ member => nomatch member)
            have all := fed.trans answered
            rcases processMngIndex_next processed with rfl | rfl | rfl
            · obtain ⟨rfl, rfl⟩ := Prod.mk.inj (Except.ok.inj h)
              exact ⟨all.trans (managed_setInterest _ fd opWrite),
                mngOn_setInterest (i := .requestWrite) (by decide)⟩
            · obtain ⟨rfl, rfl⟩ := Prod.mk.inj (Except.ok.inj h)
              exact ⟨all.trans (managed_setInterest _ fd opRead),
                mngOn_setInterest (i := .requestRead) (by decide)⟩
            · obtain ⟨rfl, rfl⟩ := Prod.mk.inj (Except.ok.inj h)
              exact ⟨all, Or.inl rfl⟩
        · obtain ⟨rfl, rfl⟩ := Prod.mk.inj (Except.ok.inj h)
          exact ⟨fed, Or.inr (Or.inr ⟨.requestReadIndex, rfl, by decide, watched⟩)⟩

theorem disableAuth_method (option : UInt8) :
    disableAuth option = 0x00 ∨ disableAuth option = 0x02 := by
  unfold disableAuth
  split
  · exact Or.inr rfl
  · exact Or.inl rfl

/-- A request with parameters changes the tables and the options of the server only. -/
theorem processMngParamsRequest_managed {p : Parser} {index : UInt8}
    (h : processMngParamsRequest p index c = .ok d) : c.Managed fd d ∧ d.sel = c.sel := by
  have quiet : ∀ {e : Conn}, c.Same e → e.sel = c.sel → e.calls = c.calls →
      (e.authMethod = c.authMethod ∨ e.authMethod = 0x00 ∨ e.authMethod = 0x02) →
      c.Managed fd e ∧ e.sel = c.sel := by
    intro e same sel calls method
    refine ⟨⟨same, by rw [sel]; exact .refl _ _, fun good => ?_, [], ?_, fun _ member => nomatch member⟩,
      sel⟩
    · rcases method with eq | method
      · rw [eq]
        exact good
      · exact method
    · rw [calls, List.append_nil]
  simp only [processMngParamsRequest] at h
  split at h
  · split at h
    · obtain rfl := Except.ok.inj h
      exact quiet ⟨rfl, rfl, rfl, rfl, rfl, rfl, rfl, rfl⟩ rfl rfl (Or.inl rfl)
    · obtain ⟨_, -, h⟩ := bind_eq_ok.mp h
      obtain ⟨_, -, h⟩ := bind_eq_ok.mp h
      obtain ⟨_, -, h⟩ := bind_eq_ok.mp h
      obtain rfl := Except.ok.inj h
      exact quiet ⟨rfl, rfl, rfl, rfl, rfl, rfl, rfl, rfl⟩ rfl rfl (Or.inl rfl)
  · obtain ⟨_, -, h⟩ := bind_eq_ok.mp h
    obtain ⟨_, -, h⟩ := bind_eq_ok.mp h
    obtain rfl := Except.ok.inj h
    exact quiet ⟨rfl, rfl, rfl, rfl, rfl, rfl, rfl, rfl⟩ rfl rfl (Or.inl rfl)
  · obtain ⟨option, -, h⟩ := bind_eq_ok.mp h
    obtain rfl := Except.ok.inj h
    exact quiet ⟨rfl, rfl, rfl, rfl, rfl, rfl, rfl, rfl⟩ rfl rfl (Or.inr (disableAuth_method option))
  · obtain ⟨_, -, h⟩ := bind_eq_ok.mp h
    obtain rfl := Except.ok.inj h
    exact quiet ⟨rfl, rfl, rfl, rfl, rfl, rfl, rfl, rfl⟩ rfl rfl (Or.inl rfl)
  · obtain rfl := Except.ok.inj h
    exact quiet ⟨rfl, rfl, rfl, rfl, rfl, rfl, rfl, rfl⟩ rfl rfl (Or.inl rfl)

theorem mngRequestRead_managed (watched : c.interestOf fd = opRead)
    (h : mngRequestRead o fd c = .ok (ret, d)) : c.Managed fd d ∧ MngOn fd d ret := by
  simp only [mngRequestRead] at h
  obtain ⟨x, -, h⟩ := bind_eq_ok.mp h
  split at h
  · obtain ⟨rfl, rfl⟩ := Prod.mk.inj (Except.ok.inj h)
    exact ⟨mngReplyStatus_managed _ _ _ _, mngReplyStatus_on _ _ _ _⟩
  · split at h
    · obtain ⟨rfl, rfl⟩ := Prod.mk.inj (Except.ok.inj h)
      exact ⟨recv_managed _ _ _, Or.inl rfl⟩
    · obtain ⟨rfl, rfl⟩ := Prod.mk.inj (Except.ok.inj h)
      exact ⟨recv_managed _ _ _, Or.inl rfl⟩
    · rename_i b bytes got
      obtain ⟨p, -, h⟩ := bind_eq_ok.mp h
      obtain ⟨⟨rb, p', state, error⟩, -, h⟩ := bind_eq_ok.mp h
      have fed : c.Managed fd (mngFed fd c x (b :: bytes) rb p') := mngFed_managed _ _ _ _
      split at h
      · split at h
        · rename_i accepted
          have all := fed.trans (managed_setInterest _ fd opWrite)
          split at h
          · obtain ⟨rfl, rfl⟩ := Prod.mk.inj (Except.ok.inj h)
            exact ⟨all, Or.inl rfl⟩
          · obtain ⟨e, processed, h⟩ := bind_eq_ok.mp h
            obtain ⟨rfl, rfl⟩ := Prod.mk.inj (Except.ok.inj h)
            obtain ⟨managed, sel⟩ := processMngParamsRequest_managed processed
            refine ⟨all.trans managed, Or.inr (Or.inr ⟨.requestWrite, rfl, by decide, ?_⟩)⟩
            unfold Conn.interestOf
            rw [sel]
            exact interestOf_setInterest (interestStatus_success.mp accepted)
        · obtain ⟨rfl, rfl⟩ := Prod.mk.inj (Except.ok.inj h)
          exact ⟨fed, Or.inl rfl⟩
      · obtain ⟨rfl, rfl⟩ := Prod.mk.inj (Except.ok.inj h)
        exact ⟨fed, Or.inr (Or.inr ⟨.requestRead, rfl, by decide, watched⟩)⟩

theorem mngRequestWrite_managed (watched : c.interestOf fd = opWrite)
    (h : mngRequestWrite o fd c = .ok (ret, d)) : c.Managed fd d ∧ MngOn fd d ret := by
  have sends : ∀ {e : Conn} {got : Option (List UInt8)}, c.Same e → e.sel = c.sel →
      e.authMethod = c.authMethod → e.calls = c.calls ++ [.send fd got] → c.Managed fd e :=
    fun same sel method calls => managed_fields same sel method calls
      (fun _ member => ⟨fd, _, Or.inr (List.mem_singleton.mp member)⟩)
  simp only [mngRequestWrite] at h
  obtain ⟨x, -, h⟩ := bind_eq_ok.mp h
  split at h
  · obtain ⟨rfl, rfl⟩ := Prod.mk.inj (Except.ok.inj h)
    exact ⟨sends ⟨rfl, rfl, rfl, rfl, rfl, rfl, rfl, rfl⟩ rfl rfl rfl, Or.inl rfl⟩
  · obtain ⟨rfl, rfl⟩ := Prod.mk.inj (Except.ok.inj h)
    refine ⟨sends ⟨rfl, rfl, rfl, rfl, rfl, rfl, rfl, rfl⟩ rfl rfl rfl, ?_⟩
    split
    · exact Or.inr (Or.inr ⟨.requestWrite, rfl, by decide, watched⟩)
    · exact Or.inr (Or.inl rfl)

/-! ## The hooks -/

theorem client_managed (c : Conn) (fd : Int) (x : ClientSt) : c.Managed fd { c with client := x } :=
  managed_fields ⟨rfl, rfl, rfl, rfl, rfl, rfl, rfl, rfl⟩ rfl rfl (List.append_nil _).symm
    (fun _ member => nomatch member)

theorem mngRequestIndexInit_ok (h : mngRequestIndexInit o fd c = .ok d) :
    ∃ x, d = { c with client := .mngRequest x } := by
  simp only [mngRequestIndexInit] at h
  obtain ⟨parser, -, h⟩ := bind_eq_ok.mp h
  exact ⟨_, (Except.ok.inj h).symm⟩

theorem mngRequestIndexClose_ok (h : mngRequestIndexClose fd c = .ok d) :
    ∃ x, d = { c with client := .mngRequest x } := by
  simp only [mngRequestIndexClose] at h
  obtain ⟨x, -, h⟩ := bind_eq_ok.mp h
  obtain ⟨parser, -, h⟩ := bind_eq_ok.mp h
  exact ⟨_, (Except.ok.inj h).symm⟩

theorem mngRequestInit_ok (h : mngRequestInit o fd c = .ok d) :
    ∃ x, d = { c with client := .mngRequest x } := by
  simp only [mngRequestInit] at h
  obtain ⟨x, -, h⟩ := bind_eq_ok.mp h
  split at h
  · cases h
  · obtain ⟨parser, -, h⟩ := bind_eq_ok.mp h
    exact ⟨_, (Except.ok.inj h).symm⟩

theorem mngRequestWriteInit_ok (h : mngRequestWriteInit fd c = .ok d) :
    ∃ x, d = { c with client := .mngRequest x } := by
  simp only [mngRequestWriteInit] at h
  obtain ⟨x, member, h⟩ := bind_eq_ok.mp h
  obtain rfl := Except.ok.inj h
  refine ⟨x, ?_⟩
  rw [← mngRequest_ok.mp member]

/-- The hooks of the states past the negotiation change the client's union only. -/
theorem mngDeparture_client {state : MngState} (h : runHook (state.entry o fd).onDeparture c = .ok d)
    (listed : state ∈ [MngState.requestReadIndex, .requestRead, .requestWrite]) :
    ∃ x, d = { c with client := x } := by
  cases state with
  | requestReadIndex =>
    have h : mngRequestIndexClose fd c = .ok d := h
    obtain ⟨x, eq⟩ := mngRequestIndexClose_ok h
    exact ⟨_, eq⟩
  | requestRead =>
    have h : mngRequestIndexClose fd c = .ok d := h
    obtain ⟨x, eq⟩ := mngRequestIndexClose_ok h
    exact ⟨_, eq⟩
  | requestWrite =>
    obtain rfl := Except.ok.inj h
    exact ⟨c.client, rfl⟩
  | helloRead | helloWrite | userpassRead | userpassWrite | done | error =>
    exact absurd listed (by decide)

theorem mngArrival_client {state : MngState} (h : runHook (state.entry o fd).onArrival c = .ok d)
    (listed : state ∈ [MngState.requestReadIndex, .requestRead, .requestWrite]) :
    ∃ x, d = { c with client := x } := by
  cases state with
  | requestReadIndex =>
    have h : mngRequestIndexInit o fd c = .ok d := h
    obtain ⟨x, eq⟩ := mngRequestIndexInit_ok h
    exact ⟨_, eq⟩
  | requestRead =>
    have h : mngRequestInit o fd c = .ok d := h
    obtain ⟨x, eq⟩ := mngRequestInit_ok h
    exact ⟨_, eq⟩
  | requestWrite =>
    have h : mngRequestWriteInit fd c = .ok d := h
    obtain ⟨x, eq⟩ := mngRequestWriteInit_ok h
    exact ⟨_, eq⟩
  | helloRead | helloWrite | userpassRead | userpassWrite | done | error =>
    exact absurd listed (by decide)

/-! ## The events -/

/-- A session in a state past the negotiation, watched for what the state handles. -/
def Session.Manages (s : Session) : Prop :=
  ∃ state ∈ [MngState.requestReadIndex, .requestRead, .requestWrite], s.InMng state ∧
    s.conn.interestOf s.conn.clientFd = state.watches

theorem mng_terminal (n : Nat) : Terminal false n ↔ n = MngState.error.num ∨ n = MngState.done.num := by
  simp [Terminal]

variable {ev : Event} {s t : Session}

/-- An event of a management request: it goes on, or the connection ends. -/
theorem manages_event (manages : s.Manages) (h : handleEvent ev o s.conn.clientFd s = .ok t) :
    t.Manages ∧ s.conn.Managed s.conn.clientFd t.conn ∨
      ∃ ret last, Terminal false ret ∧ t.stm.current = some ret ∧
        s.conn.Managed s.conn.clientFd last ∧ finish false last = .ok t.conn := by
  obtain ⟨state, listed, ⟨mng, current⟩, watched⟩ := manages
  have there : (statesOf s.conn.isSocks o s.conn.clientFd)[state.num]? =
      some (state.entry o s.conn.clientFd) := by
    rw [mng]
    exact clientMng_get o _ state
  obtain ⟨handler, ret, mid, last, picked, ran, stm, moved, ended⟩ := table_event current there h
  rw [mng] at ended moved
  obtain ⟨managed, goes⟩ : s.conn.Managed s.conn.clientFd mid ∧ MngOn s.conn.clientFd mid ret := by
    simp only [List.mem_cons, List.not_mem_nil, or_false] at listed
    rcases listed with rfl | rfl | rfl
    · cases ev with
      | read =>
        obtain rfl := Option.some.inj picked
        exact mngRequestIndexRead_managed watched ran
      | write => cases picked
      | block => cases picked
    · cases ev with
      | read =>
        obtain rfl := Option.some.inj picked
        exact mngRequestRead_managed watched ran
      | write => cases picked
      | block => cases picked
    · cases ev with
      | read => cases picked
      | write =>
        obtain rfl := Option.some.inj picked
        exact mngRequestWrite_managed watched ran
      | block => cases picked
  have early : state.num < 7 := by
    simp only [List.mem_cons, List.not_mem_nil, or_false] at listed
    rcases listed with rfl | rfl | rfl <;> decide
  have left : ∀ {left : Conn}, runHook (state.entry o s.conn.clientFd).onDeparture mid = .ok left →
      s.conn.Managed s.conn.clientFd left ∧ left.sel = mid.sel := by
    intro left departed
    obtain ⟨x, rfl⟩ := mngDeparture_client departed listed
    exact ⟨managed.trans (client_managed _ _ _), rfl⟩
  have terminates : Terminal false ret → ∃ last, s.conn.Managed s.conn.clientFd last ∧
      finish false last = .ok t.conn := by
    intro terminal
    rcases ended with ⟨-, fin⟩ | ⟨going, -⟩
    · rcases moved with ⟨same, -⟩ | ⟨-, next, left', there', departed, arrived⟩
      · exact absurd same (terminal_ne early terminal)
      · obtain rfl : left' = last :=
          Except.ok.inj ((terminal_arrival terminal there').symm.trans arrived)
        exact ⟨left', (left departed).1, fin⟩
    · exact absurd terminal going
  rcases goes with error | done | ⟨next, rfl, there', watched'⟩
  · have terminal := (mng_terminal ret).mpr (Or.inl error)
    obtain ⟨last, managed, fin⟩ := terminates terminal
    exact Or.inr ⟨ret, last, terminal, by rw [stm], managed, fin⟩
  · have terminal := (mng_terminal ret).mpr (Or.inr done)
    obtain ⟨last, managed, fin⟩ := terminates terminal
    exact Or.inr ⟨ret, last, terminal, by rw [stm], managed, fin⟩
  · have going : ¬ Terminal false next.num := not_terminal (by
      simp only [List.mem_cons, List.not_mem_nil, or_false] at there'
      rcases there' with rfl | rfl | rfl <;> decide)
    obtain rfl : t.conn = last := by
      rcases ended with ⟨terminal, -⟩ | ⟨-, same⟩
      · exact absurd terminal going
      · exact same
    obtain ⟨managed, sel⟩ : s.conn.Managed s.conn.clientFd t.conn ∧ t.conn.sel = mid.sel := by
      rcases moved with ⟨-, same⟩ | ⟨-, entry, left', found, departed, arrived⟩
      · rw [same]
        exact ⟨managed, rfl⟩
      · obtain ⟨managed, sel⟩ := left departed
        obtain rfl := Option.some.inj ((clientMng_get o s.conn.clientFd next).symm.trans found)
        obtain ⟨x, eq⟩ := mngArrival_client arrived there'
        rw [eq]
        exact ⟨managed.trans (client_managed _ _ _), sel⟩
    refine Or.inl ⟨⟨next, there', ⟨managed.same.isSocks.trans mng, by rw [stm]⟩, ?_⟩, managed⟩
    rw [managed.same.clientFd]
    unfold Conn.interestOf
    rw [sel]
    exact watched'

end

end SocksProxy
