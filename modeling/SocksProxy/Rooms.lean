import SocksProxy.Passage

/-!
# The two buffers through every state

Each stage fills, drains or answers into the buffers of the record. None of them
changes the size of a buffer, and none leaves an empty buffer away from its start.
-/

namespace SocksProxy

open Lib

/-- What the operations of a buffer keep. -/
structure Buffer.Keeps (b b' : Buffer) : Prop where
  limit : b'.limit = b.limit
  rewound : b.Rewound → b'.Rewound

def Conn.KeepsBuffers (c d : Conn) : Prop := ∀ r, (c.buffer r).Keeps (d.buffer r)

/-- Both buffers have the size they were made with, and an empty one is at its start. -/
def Socks5.Roomy (c : Socks5) : Prop :=
  ∀ r, (c.buffer r).limit = rawBuffSize ∧ (c.buffer r).Rewound

section
variable {k : Course} {b b' b'' : Buffer} {c d : Conn} {s t : Session} {l : Label} {e : Event}
  {o : Outcome} {fd : Int} {ret : Nat} {state next : SocksV5State} {mid : Conn}

/-! ## One buffer -/

theorem Buffer.Keeps.refl (b : Buffer) : b.Keeps b := ⟨rfl, id⟩

theorem Buffer.Keeps.trans (h : b.Keeps b') (k : b'.Keeps b'') : b.Keeps b'' :=
  ⟨k.limit.trans h.limit, fun rewound => k.rewound (h.rewound rewound)⟩

theorem keeps_fill (b : Buffer) (bytes : List UInt8) : b.Keeps (bufferFill b bytes) :=
  ⟨bufferFill_limit _ _, bufferFill_rewound⟩

theorem keeps_take (b : Buffer) (n : Nat) : b.Keeps (bufferTake b n) :=
  ⟨bufferTake_limit _ _, fun _ => bufferTake_rewound _ _⟩

theorem keeps_marshall {status : SocksReplyStatus} (h : requestMarshall status b = some b') :
    b.Keeps b' := by
  unfold requestMarshall at h
  split at h
  · obtain rfl := Option.some.inj h
    exact ⟨bufferPut_limit _, bufferPut_rewound _⟩
  · cases h

theorem keeps_marshalled (status : SocksReplyStatus) (b : Buffer) :
    b.Keeps ((requestMarshall status b).getD b) := by
  cases room : requestMarshall status b with
  | none => exact .refl b
  | some wb => exact keeps_marshall room

theorem keeps_authReply (b : Buffer) (result : UInt8) : b.Keeps (authReply b result) := by
  unfold authReply
  split
  · exact ⟨bufferPut_limit _, bufferPut_rewound _⟩
  · exact .refl b

/-- A chunk joins the buffer, and the parser of the stage drains it. -/
theorem keeps_drained {σ : Type} {feed : σ → UInt8 → Result σ} {stop : σ → Bool} {p p' : σ}
    {bytes : List UInt8}
    (h : drain feed stop ((bufferFill b bytes).write - (bufferFill b bytes).read)
      (bufferFill b bytes) p = .ok (b', p')) : b.Keeps b' := by
  obtain ⟨-, limit, rewound⟩ := drain_ok (Nat.le_of_eq (bufferReadPtr_length _)) h
  exact (keeps_fill b bytes).trans ⟨limit, rewound⟩

/-! ## The record -/

theorem keepsBuffers_same (h : d.buffer = c.buffer) : c.KeepsBuffers d := by
  intro r
  rw [h]
  exact .refl _

theorem Conn.KeepsBuffers.trans {x : Conn} (h : c.KeepsBuffers d) (k : d.KeepsBuffers x) :
    c.KeepsBuffers x := fun r => (h r).trans (k r)

theorem keepsBuffers_both (read : c.readBuffer.Keeps d.readBuffer)
    (write : c.writeBuffer.Keeps d.writeBuffer) : c.KeepsBuffers d := by
  intro r
  cases r
  · exact read
  · exact write

theorem roomy_kept (h : c.Roomy) (kept : c.KeepsBuffers d) : d.Roomy :=
  fun r => ⟨(kept r).limit.trans (h r).1, (kept r).rewound (h r).2⟩

theorem sentOff_buffers (c : Conn) (fd : Int) (bytes : List UInt8) :
    c.KeepsBuffers (c.sentOff fd bytes) :=
  keepsBuffers_both (.refl _) (keeps_take _ _)

theorem marshall_buffers {status : SocksReplyStatus}
    (h : requestMarshall status c.writeBuffer = some b)
    (read : d.readBuffer = c.readBuffer) (write : d.writeBuffer = b) : c.KeepsBuffers d := by
  apply keepsBuffers_both
  · rw [read]
    exact .refl _
  · rw [write]
    exact keeps_marshall h

theorem errorHandler_buffers (status : SocksReplyStatus) (fd : Int) (c : Conn) :
    c.KeepsBuffers (errorHandler status fd c).2 :=
  keepsBuffers_both (.refl _) (keeps_marshalled _ _)

theorem errorHandlerToClient_buffers (status : SocksReplyStatus) (c : Conn) :
    c.KeepsBuffers (errorHandlerToClient status c).2 := by
  have record := errorHandlerToClient_record status c
  refine keepsBuffers_both ?_ ?_
  · rw [record]
    exact .refl _
  · rw [record]
    exact keeps_marshalled _ _

/-! ## The negotiation -/

theorem helloRead_buffers (h : helloRead o fd c = .ok (ret, d)) : c.KeepsBuffers d := by
  simp only [helloRead] at h
  obtain ⟨x, -, h⟩ := bind_eq_ok.mp h
  split at h
  · obtain ⟨-, rfl⟩ := Prod.mk.inj (Except.ok.inj h)
    exact keepsBuffers_same rfl
  · split at h
    · obtain ⟨-, rfl⟩ := Prod.mk.inj (Except.ok.inj h)
      exact keepsBuffers_same rfl
    · obtain ⟨-, rfl⟩ := Prod.mk.inj (Except.ok.inj h)
      exact keepsBuffers_same rfl
    · obtain ⟨p, -, h⟩ := bind_eq_ok.mp h
      obtain ⟨⟨rb, ⟨p', method⟩, error⟩, consumed, h⟩ := bind_eq_ok.mp h
      obtain ⟨-, limit, rewound, -⟩ := helloConsume_ok consumed
      have read : c.readBuffer.Keeps rb := (keeps_fill _ _).trans ⟨limit, rewound⟩
      split at h
      · split at h
        · split at h
          · obtain ⟨-, rfl⟩ := Prod.mk.inj (Except.ok.inj h)
            exact keepsBuffers_both read (.refl _)
          · rename_i wb processed
            obtain ⟨wb', marshalled, eq⟩ := Option.map_eq_some_iff.mp processed
            obtain ⟨-, rfl⟩ := Prod.mk.inj eq
            obtain ⟨-, rfl⟩ := Prod.mk.inj (Except.ok.inj h)
            obtain ⟨-, limit, rewound⟩ := helloMarshal_some marshalled
            exact keepsBuffers_both read ⟨limit, rewound⟩
        · obtain ⟨-, rfl⟩ := Prod.mk.inj (Except.ok.inj h)
          exact keepsBuffers_both read (.refl _)
      · obtain ⟨-, rfl⟩ := Prod.mk.inj (Except.ok.inj h)
        exact keepsBuffers_both read (.refl _)

theorem helloWrite_buffers (h : helloWrite o fd c = .ok (ret, d)) : c.KeepsBuffers d := by
  simp only [helloWrite] at h
  obtain ⟨x, -, h⟩ := bind_eq_ok.mp h
  split at h
  · obtain ⟨-, rfl⟩ := Prod.mk.inj (Except.ok.inj h)
    exact keepsBuffers_same rfl
  · rename_i bytes sent
    have off := sentOff_buffers c fd bytes
    split at h
    · obtain ⟨-, rfl⟩ := Prod.mk.inj (Except.ok.inj h)
      exact off
    · split at h
      · obtain ⟨-, rfl⟩ := Prod.mk.inj (Except.ok.inj h)
        exact off
      · split at h
        · obtain ⟨-, rfl⟩ := Prod.mk.inj (Except.ok.inj h)
          exact off.trans (keepsBuffers_same rfl)
        · obtain ⟨-, rfl⟩ := Prod.mk.inj (Except.ok.inj h)
          exact off

theorem authRead_buffers (h : authRead o fd c = .ok (ret, d)) : c.KeepsBuffers d := by
  simp only [authRead] at h
  obtain ⟨x, -, h⟩ := bind_eq_ok.mp h
  split at h
  · obtain ⟨-, rfl⟩ := Prod.mk.inj (Except.ok.inj h)
    exact keepsBuffers_same rfl
  · split at h
    · obtain ⟨-, rfl⟩ := Prod.mk.inj (Except.ok.inj h)
      exact keepsBuffers_same rfl
    · obtain ⟨-, rfl⟩ := Prod.mk.inj (Except.ok.inj h)
      exact keepsBuffers_same rfl
    · rename_i byte bytes got
      obtain ⟨p, -, h⟩ := bind_eq_ok.mp h
      obtain ⟨⟨rb, p', st, error⟩, consumed, h⟩ := bind_eq_ok.mp h
      have unread := fill_canRead (List.cons_ne_nil byte bytes) (recvBytes_le got)
      obtain ⟨-, limit, rewound, -⟩ := consume_ok consumed unread
      have read : c.readBuffer.Keeps rb := (keeps_fill _ _).trans ⟨limit, rewound⟩
      split at h
      · split at h
        · obtain ⟨⟨r, last⟩, processed, h⟩ := bind_eq_ok.mp h
          obtain ⟨-, username, password, result, userIndex, -, -, rfl⟩ := authProcess_ok processed
          obtain ⟨-, rfl⟩ := Prod.mk.inj (Except.ok.inj h)
          exact keepsBuffers_both read (.refl _)
        · obtain ⟨-, rfl⟩ := Prod.mk.inj (Except.ok.inj h)
          exact keepsBuffers_both read (.refl _)
      · obtain ⟨-, rfl⟩ := Prod.mk.inj (Except.ok.inj h)
        exact keepsBuffers_both read (.refl _)

theorem authWrite_buffers (h : authWrite o fd c = .ok (ret, d)) : c.KeepsBuffers d := by
  simp only [authWrite] at h
  obtain ⟨x, -, h⟩ := bind_eq_ok.mp h
  have replied : c.KeepsBuffers c.replied :=
    keepsBuffers_both (.refl _) (keeps_authReply _ _)
  split at h
  · obtain ⟨-, rfl⟩ := Prod.mk.inj (Except.ok.inj h)
    exact replied
  · rename_i bytes sent
    have off := replied.trans (sentOff_buffers c.replied fd bytes)
    split at h
    · obtain ⟨-, rfl⟩ := Prod.mk.inj (Except.ok.inj h)
      exact off
    · split at h
      · obtain ⟨-, rfl⟩ := Prod.mk.inj (Except.ok.inj h)
        exact off
      · split at h
        · obtain ⟨-, rfl⟩ := Prod.mk.inj (Except.ok.inj h)
          exact off.trans (keepsBuffers_same rfl)
        · obtain ⟨-, rfl⟩ := Prod.mk.inj (Except.ok.inj h)
          exact off

/-! ## The request and the origin -/

theorem requestInit_buffers (h : requestInit o fd c = .ok d) : c.KeepsBuffers d := by
  have once := errorHandler_buffers .generalSocksServerFailure fd c
  rcases requestInit_ok h with ⟨-, -, rfl⟩ | ⟨-, x, d', rfl, rfl | rfl⟩
  · exact keepsBuffers_same rfl
  · exact once.trans (keepsBuffers_same rfl)
  · exact once.trans ((errorHandler_buffers _ fd _).trans (keepsBuffers_same rfl))

theorem requestProcess_buffers (o : Outcome) (fd : Int) (x : RequestSt) (p : RequestParser)
    (c : Conn) : c.KeepsBuffers (requestProcess o fd x p c).2 := by
  rcases requestProcess_cases o fd x p c with
    ⟨family, status, -, -, eq⟩ | ⟨-, family, domain, len, addr, eq⟩ | ⟨-, created, eq⟩
  · rw [eq]
    have client : c.KeepsBuffers { c with
        client := .request { x with addrFamily := family, status := status } } :=
      keepsBuffers_same rfl
    exact client.trans (errorHandler_buffers _ fd _)
  · rw [eq]
    exact keepsBuffers_same rfl
  · rw [eq]
    cases created <;> exact keepsBuffers_same rfl

theorem requestRead_buffers (h : requestRead o fd c = .ok (ret, d)) :
    c.KeepsBuffers d := by
  obtain ⟨x, -, ⟨-, -, rfl⟩ | ⟨-, got, -, -, -, rfl⟩ |
    ⟨-, bytes, p, rb, p', -, -, -, consumed, ended⟩⟩ := requestRead_ok h
  · exact keepsBuffers_same rfl
  · exact keepsBuffers_same rfl
  · have fed : c.KeepsBuffers (requestFed fd c x bytes rb p') :=
      keepsBuffers_both (keeps_drained consumed) (.refl _)
    rcases ended with ⟨-, processed⟩ | ⟨-, -, rfl⟩
    · obtain ⟨-, rfl⟩ := Prod.mk.inj processed
      exact fed.trans (requestProcess_buffers _ _ _ _ _)
    · exact fed

theorem requestResolvDone_buffers (h : requestResolvDone fd c = .ok (ret, d)) :
    c.KeepsBuffers d := by
  unfold requestResolvDone at h
  split at h
  · obtain ⟨conn, -, h⟩ := bind_eq_ok.mp h
    obtain ⟨x, -, h⟩ := bind_eq_ok.mp h
    obtain ⟨-, rfl⟩ := Prod.mk.inj (Except.ok.inj h)
    exact keepsBuffers_both (.refl _) (keeps_marshalled _ _)
  · rename_i current rest found
    obtain ⟨-, rfl⟩ := Prod.mk.inj (Except.ok.inj h)
    obtain ⟨addr, domain, len, eq, -⟩ := resolved_eq current rest c
    rw [eq]
    exact keepsBuffers_same rfl

/-- A failure is answered to the client, whatever was noted before it. -/
theorem connectionFailed_buffers {x : Conn} {status r : SocksReplyStatus}
    (h : connectionFailed status x = .ok (r, d)) (same : x.buffer = c.buffer) :
    c.KeepsBuffers d := by
  simp only [connectionFailed, Conn.setConnStatus, bind_assoc] at h
  obtain ⟨conn, -, h⟩ := bind_eq_ok.mp h
  obtain ⟨-, rfl⟩ := Prod.mk.inj (Except.ok.inj h)
  have stored : c.KeepsBuffers { x with orig := .conn { conn with status := status } } :=
    keepsBuffers_same same
  exact stored.trans (errorHandlerToClient_buffers _ _)

theorem connection_buffers {x : Conn} {r : SocksReplyStatus} (h : connection o fd x = .ok (r, d))
    (same : x.buffer = c.buffer) : c.KeepsBuffers d := by
  simp only [connection] at h
  split at h
  · split at h
    · exact connectionFailed_buffers h same
    · split at h
      · obtain ⟨⟨status, y⟩, ran, h⟩ := bind_eq_ok.mp h
        obtain ⟨-, rfl⟩ := Prod.mk.inj (Except.ok.inj h)
        exact (connectionFailed_buffers ran same).trans (keepsBuffers_same rfl)
      · obtain ⟨-, rfl⟩ := Prod.mk.inj (Except.ok.inj h)
        exact keepsBuffers_same same
  · obtain ⟨y, -, h⟩ := bind_eq_ok.mp h
    exact connectionFailed_buffers h same
  · split at h
    · exact connectionFailed_buffers h same
    · split at h
      · exact connectionFailed_buffers h same
      · obtain ⟨-, rfl⟩ := Prod.mk.inj (Except.ok.inj h)
        exact keepsBuffers_same same

theorem connectingInit_buffers (h : connectingInit o fd c = .ok d) : c.KeepsBuffers d := by
  simp only [connectingInit] at h
  split at h
  · obtain ⟨⟨status, x⟩, ran, h⟩ := bind_eq_ok.mp h
    obtain rfl := Except.ok.inj h
    exact connectionFailed_buffers ran rfl
  · rename_i n found
    split at h
    · obtain ⟨⟨status, x⟩, ran, h⟩ := bind_eq_ok.mp h
      have kept : c.KeepsBuffers x := connection_buffers ran rfl
      simp only [Conn.setConnStatus] at h
      obtain ⟨conn, -, h⟩ := bind_eq_ok.mp h
      obtain rfl := Except.ok.inj h
      exact kept.trans (keepsBuffers_same rfl)
    · obtain ⟨⟨status, x⟩, ran, h⟩ := bind_eq_ok.mp h
      obtain rfl := Except.ok.inj h
      exact connectionFailed_buffers ran rfl

theorem nextAddress_buffers {x : Conn} {a : AddrInfo} {rest : List AddrInfo}
    (h : nextAddress o fd a rest x = .ok (ret, d)) (same : x.buffer = c.buffer) :
    c.KeepsBuffers d := by
  simp only [nextAddress] at h
  obtain ⟨⟨status, y⟩, ran, h⟩ := bind_eq_ok.mp h
  obtain ⟨-, rfl⟩ := Prod.mk.inj (Except.ok.inj h)
  refine connection_buffers ran ?_
  unfold setOriginAddr
  split <;> exact same

theorem endsTo_buffers (h : EndsTo c.toSocks5 d.toSocks5) : c.KeepsBuffers d := by
  obtain ⟨references, ended, record, -⟩ := h
  refine keepsBuffers_same ?_
  rw [record]
  rfl

theorem connectingWrite_buffers (h : connectingWrite o fd c = .ok (ret, d)) : c.KeepsBuffers d := by
  -- a refusal is stored in the record and answered to the client
  have refused : ∀ {x : Conn} {status : SocksReplyStatus},
      (.ok (errorHandlerToClient status x) : Result (Nat × Conn)) = .ok (ret, d) →
        c.KeepsBuffers x → c.KeepsBuffers d := by
    intro x status eq kept
    have last : (errorHandlerToClient status x).2 = d := congrArg Prod.snd (Except.ok.inj eq)
    rw [← last]
    exact kept.trans (errorHandlerToClient_buffers _ _)
  simp only [connectingWrite] at h
  obtain ⟨conn, -, h⟩ := bind_eq_ok.mp h
  split at h
  · split at h
    · exact nextAddress_buffers h rfl
    · refine refused h ?_
      exact (endsTo_buffers (unregister_record c c.originFd)).trans (keepsBuffers_same rfl)
  · split at h
    · simp only [Conn.setConnStatus, bind_assoc] at h
      obtain ⟨conn', -, h⟩ := bind_eq_ok.mp h
      exact refused h (keepsBuffers_same rfl)
    · obtain ⟨x, -, h⟩ := bind_eq_ok.mp h
      have freed : ∀ y : Conn, (y.freeResolution x).buffer = y.buffer := by
        intro y
        unfold Conn.freeResolution
        split <;> rfl
      split at h
      · obtain ⟨-, rfl⟩ := Prod.mk.inj (Except.ok.inj h)
        exact keepsBuffers_same (freed _)
      · rename_i wb marshalled
        obtain ⟨-, rfl⟩ := Prod.mk.inj (Except.ok.inj h)
        refine Conn.KeepsBuffers.trans ?_ (marshall_buffers marshalled rfl rfl)
        exact keepsBuffers_same (freed _)
    · simp only [Conn.setConnStatus, bind_assoc] at h
      obtain ⟨conn', -, h⟩ := bind_eq_ok.mp h
      simp only [ok_bind] at h
      split at h
      · exact nextAddress_buffers h rfl
      · exact refused h (keepsBuffers_same rfl)
      · obtain ⟨x, -, h⟩ := bind_eq_ok.mp h
        refine refused h (keepsBuffers_same ?_)
        unfold Conn.freeResolution
        split <;> rfl

theorem requestWrite_buffers (h : requestWrite o fd c = .ok (ret, d)) : c.KeepsBuffers d := by
  have off := sentOff_buffers c fd
  rcases requestWrite_ok h with ⟨-, -, rfl⟩ |
    ⟨bytes, -, ⟨-, -, rfl⟩ | ⟨-, conn, -, ⟨-, -, rfl⟩ | ⟨-, -, rfl⟩⟩⟩
  · exact keepsBuffers_same rfl
  · exact off bytes
  · exact (off bytes).trans (keepsBuffers_same rfl)
  · refine (off bytes).trans (keepsBuffers_same ?_)
    split <;> rfl

/-! ## The relay -/

theorem relay_buffers {I : Side → FdInterest} (shape : c.Copying I)
    (ran : e = .read ∧ copyRead o fd c = .ok (ret, d) ∨
      e = .write ∧ copyWrite o fd c = .ok (ret, d)) : c.KeepsBuffers d := by
  have sides : ∀ side : Side, (c.buffer side.rb).Keeps (d.buffer side.rb) →
      (c.buffer side.wb).Keeps (d.buffer side.wb) → c.KeepsBuffers d := by
    intro side own other
    cases side
    · exact keepsBuffers_both own other
    · exact keepsBuffers_both other own
  rcases ran with ⟨-, ran⟩ | ⟨-, ran⟩
  · obtain ⟨side, J, -, -, ⟨bytes, -, -, -, own, other, -⟩ | ⟨got, -, -, -, -, same, -⟩⟩ :=
      copyRead_ok shape ran
    · refine sides side ?_ ?_
      · rw [own]
        exact keeps_fill _ _
      · rw [other]
        exact .refl _
    · exact keepsBuffers_same same
  · obtain ⟨side, J, -, -, ⟨bytes, -, -, own, other, -⟩ | ⟨-, -, -, same, -⟩⟩ :=
      copyWrite_ok shape ran
    · refine sides side ?_ ?_
      · rw [other]
        exact .refl _
      · rw [own]
        exact keeps_take _ _
    · exact keepsBuffers_same same

/-! ## A step and a run -/

theorem arrival_buffers (h : runHook (state.entry o fd).onArrival c = .ok d) :
    c.KeepsBuffers d := by
  have still : (Except.ok c : Result Conn) = .ok d → c.KeepsBuffers d := by
    intro same
    obtain rfl := Except.ok.inj same
    exact keepsBuffers_same rfl
  cases state with
  | helloRead =>
    have h : helloReadInit o fd c = .ok d := h
    rcases helloReadInit_ok h with rfl | rfl <;> exact keepsBuffers_same rfl
  | helloWrite =>
    have h : helloWriteInit fd c = .ok d := h
    obtain ⟨x, -, h⟩ := bind_eq_ok.mp h
    exact still h
  | userpassRead =>
    have h : authReadInit o fd c = .ok d := h
    obtain ⟨x, rfl, -⟩ := authReadInit_ok h
    exact keepsBuffers_same rfl
  | userpassWrite =>
    have h : authWriteInit fd c = .ok d := h
    obtain ⟨x, -, h⟩ := bind_eq_ok.mp h
    exact still h
  | requestRead => exact requestInit_buffers h
  | requestConnecting => exact connectingInit_buffers h
  | copy =>
    have h : copyInit fd c = .ok d := h
    obtain ⟨-, -, same, -⟩ := copyInit_ok h
    exact keepsBuffers_same same
  | requestResolv => exact still h
  | requestWrite => exact still h
  | done => exact still h
  | error => exact still h

theorem departure_buffers (h : runHook (state.entry o fd).onDeparture c = .ok d) :
    c.KeepsBuffers d := by
  obtain ⟨x, rfl⟩ := departure_client h
  exact keepsBuffers_same rfl

theorem handler_buffers {handler : Conn → Result (Nat × Conn)}
    (picked : e.handler (state.entry o fd) = some handler)
    (shape : state = .copy → ∃ I, c.Copying I) (ran : handler c = .ok (ret, d)) :
    c.KeepsBuffers d := by
  cases state with
  | helloRead =>
    cases e <;> cases picked
    exact helloRead_buffers ran
  | helloWrite =>
    cases e <;> cases picked
    exact helloWrite_buffers ran
  | userpassRead =>
    cases e <;> cases picked
    exact authRead_buffers ran
  | userpassWrite =>
    cases e <;> cases picked
    exact authWrite_buffers ran
  | requestRead =>
    cases e <;> cases picked
    exact requestRead_buffers ran
  | requestResolv =>
    cases e <;> cases picked
    exact requestResolvDone_buffers ran
  | requestConnecting =>
    cases e <;> cases picked
    exact connectingWrite_buffers ran
  | requestWrite =>
    cases e <;> cases picked
    exact requestWrite_buffers ran
  | copy =>
    obtain ⟨I, shape⟩ := shape rfl
    cases e <;> cases picked
    · exact relay_buffers shape (Or.inl ⟨rfl, ran⟩)
    · exact relay_buffers shape (Or.inr ⟨rfl, ran⟩)
  | done => cases e <;> cases picked
  | error => cases e <;> cases picked

theorem enters_buffers (entered : Enters state next o fd mid t) : mid.KeepsBuffers t.conn := by
  obtain ⟨last, crossed, ended⟩ := entered.hooks
  have hooks : mid.KeepsBuffers last := by
    rcases crossed with ⟨-, rfl⟩ | ⟨-, left, departed, arrived⟩
    · exact keepsBuffers_same rfl
    · exact (departure_buffers departed).trans (arrival_buffers arrived)
  rcases ended with ⟨-, ended⟩ | ⟨-, -, same⟩
  · exact hooks.trans (endsTo_buffers (@finish_record true _ _ ended))
  · rw [same]
    exact hooks

theorem event_buffers (at' : s.In state) (shape : state = .copy → ∃ I, s.conn.Copying I)
    (h : handleEvent e o fd s = .ok t) : s.conn.KeepsBuffers t.conn := by
  obtain ⟨handler, mid, next, picked, ran, -, entered⟩ := socks_event at' h
  exact (handler_buffers picked shape ran).trans (enters_buffers entered)

/-- A session on its course is in a state of its table, or waits for its first event. -/
theorem place_state (place : k.Place s) : (∃ state, s.In state) ∨
    s.conn.isSocks = true ∧ s.stm.current = none ∧ s.stm.initial = SocksV5State.helloRead.num := by
  cases phase : k.phase with
  | talking =>
    simp only [Course.Place, phase] at place
    obtain ⟨talks, -, -, fits, -⟩ := place
    rcases talks with ⟨first | at' | at', -⟩ | ⟨at' | at', -⟩
    · exact Or.inr ⟨fits.socks, first⟩
    all_goals exact Or.inl ⟨_, fits.socks, at'⟩
  | reading | broken | resolving | pending | immediate | failing | writing | copying | done
  | failed =>
    simp only [Course.Place, phase] at place
    exact Or.inl ⟨_, place.1⟩

theorem handled_buffers (place : k.Place s) (h : handleEvent e o fd s = .ok t) :
    s.conn.KeepsBuffers t.conn := by
  rcases place_state place with ⟨state, at'⟩ | ⟨socks, current, initial⟩
  · refine event_buffers at' ?_ h
    rintro rfl
    have phase := (copying_phase place).mpr at'
    simp only [Course.Place, phase] at place
    obtain ⟨-, -, -, I, shape, -⟩ := place
    exact ⟨I, shape⟩
  · obtain ⟨start, init, h⟩ := first_event current initial h
    have arrived : runHook (SocksV5State.helloRead.entry o fd).onArrival s.conn = .ok start := init
    have at' : Session.In ⟨{ s.stm with current := some SocksV5State.helloRead.num }, start⟩
        .helloRead := by
      refine ⟨?_, rfl⟩
      rcases helloReadInit_ok init with rfl | rfl <;> exact socks
    exact (arrival_buffers arrived).trans (event_buffers at' (fun eq => by cases eq) h)

theorem step_buffers (place : k.Place s) (step : Guarded s l t) :
    s.conn.KeepsBuffers t.conn := by
  cases l with
  | event e fd o =>
    cases e with
    | read | write => exact handled_buffers place step.2
    | block =>
      have taken : k.Place (takeJob fd s) := place_framed place (framed_takeJob fd s)
      have kept : s.conn.KeepsBuffers (takeJob fd s).conn := keepsBuffers_same rfl
      exact kept.trans (handled_buffers taken step.2)
  | resolved answer fd =>
    obtain rfl := Except.ok.inj step.2
    exact keepsBuffers_same rfl
  | env w =>
    obtain rfl := Except.ok.inj step.2
    exact keepsBuffers_same rfl

theorem roomy_start (start : JustAccepted true s) : s.conn.Roomy := by
  obtain ⟨-, -, -, self, clientFd, clientAddr, record⟩ := accepted_footing start
  intro r
  rw [record]
  cases r <;> exact ⟨rfl, fun _ => rfl⟩

/-- In every reachable session both buffers have their size, and an empty one is at its start. -/
theorem roomy_run {ls : List (Session × Label)} (start : JustAccepted true s)
    (run : Run Guarded s ls t) : t.conn.Roomy := by
  induction run with
  | start => exact roomy_start start
  | @next ls u v l run step ih =>
    obtain ⟨k, place⟩ := run_place start run
    exact roomy_kept ih (step_buffers place step)

end

end SocksProxy
