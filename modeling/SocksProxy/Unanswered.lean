import SocksProxy.Handshake

/-!
# Before the reply to a management request

Nothing is queued for the client while its request is read: the negotiation is left
with all its answers sent, and no event of MNG_REQUEST_READ_INDEX or MNG_REQUEST_READ
that stays before MNG_REQUEST_WRITE writes to the buffer.
-/

namespace SocksProxy

open Lib

/-- The session reads a management request. -/
def Session.Waits (s : Session) : Prop :=
  s.stm.current = some MngState.requestReadIndex.num ∨
    s.stm.current = some MngState.requestRead.num

/-- An empty write buffer, with all its room. -/
structure Socks5.Quiet (c : Socks5) : Prop where
  limit : c.writeBuffer.limit = rawBuffSize
  rewound : c.writeBuffer.Rewound
  empty : bufferReadPtr c.writeBuffer = []

theorem Socks5.Quiet.room {c : Socks5} (h : c.Quiet) :
    bufferWritePtr c.writeBuffer = rawBuffSize :=
  (h.rewound.room h.empty).2.2.trans h.limit

section
variable {s t : Session} {ls : List (Session × Label)} {l : Label} {e : Event} {o : Outcome}
  {fd : Int} {c d : Conn} {ret : Nat}

theorem quiet_writeBuffer {c d : Socks5} (h : c.Quiet) (same : d.writeBuffer = c.writeBuffer) :
    d.Quiet := by
  constructor
  · rw [same]
    exact h.limit
  · rw [same]
    exact h.rewound
  · rw [same]
    exact h.empty

theorem processMngIndex_unwritten {index : UInt8} {next : MngState} {wb : Buffer}
    (h : processMngIndex c index = .ok (next, wb)) (other : next ≠ .requestWrite) :
    wb = c.writeBuffer := by
  unfold processMngIndex at h
  split at h
  · exact absurd (congrArg Prod.fst (Except.ok.inj h)).symm other
  · obtain ⟨wb', -, h⟩ := bind_eq_ok.mp h
    exact absurd (congrArg Prod.fst (Except.ok.inj h)).symm other
  · split at h
    · exact absurd (congrArg Prod.fst (Except.ok.inj h)).symm other
    · exact (congrArg Prod.snd (Except.ok.inj h)).symm
  · exact (congrArg Prod.snd (Except.ok.inj h)).symm

/-- A request that failed is answered, or the connection ends. -/
theorem mngReplyStatus_moves {x : MngRequestSt} {status : MngReplyStatus}
    (waits : ret = MngState.requestReadIndex.num ∨ ret = MngState.requestRead.num) :
    (ret, d) ≠ mngReplyStatus x status fd c := by
  intro eq
  unfold mngReplyStatus at eq
  have first := congrArg Prod.fst eq
  simp only at first
  split at first
  · rcases waits with rfl | rfl <;> cases first
  · rcases waits with rfl | rfl <;> cases first

theorem mngRequestIndexRead_quiet (h : mngRequestIndexRead o fd c = .ok (ret, d))
    (waits : ret = MngState.requestReadIndex.num ∨ ret = MngState.requestRead.num) :
    d.writeBuffer = c.writeBuffer := by
  simp only [mngRequestIndexRead] at h
  obtain ⟨x, -, h⟩ := bind_eq_ok.mp h
  split at h
  · exact absurd (Except.ok.inj h).symm (mngReplyStatus_moves waits)
  · split at h
    · exact absurd (Except.ok.inj h).symm (mngReplyStatus_moves waits)
    · split at h
      · obtain ⟨rfl, rfl⟩ := Prod.mk.inj (Except.ok.inj h)
        rfl
      · obtain ⟨rfl, rfl⟩ := Prod.mk.inj (Except.ok.inj h)
        rfl
      · obtain ⟨p, -, h⟩ := bind_eq_ok.mp h
        obtain ⟨⟨rb, p', state, error⟩, -, h⟩ := bind_eq_ok.mp h
        split at h
        · split at h
          · exact absurd (Except.ok.inj h).symm (mngReplyStatus_moves waits)
          · obtain ⟨result, -, h⟩ := bind_eq_ok.mp h
            obtain ⟨block, -, h⟩ := bind_eq_ok.mp h
            obtain ⟨⟨next, wb⟩, processed, h⟩ := bind_eq_ok.mp h
            rcases processMngIndex_next processed with rfl | rfl | rfl
            · have first := congrArg Prod.fst (Except.ok.inj h)
              simp only at first
              split at first
              · rcases waits with rfl | rfl <;> cases first
              · rcases waits with rfl | rfl <;> cases first
            · obtain rfl := (Prod.mk.inj (Except.ok.inj h)).2
              exact processMngIndex_unwritten processed (by decide)
            · obtain rfl := (Prod.mk.inj (Except.ok.inj h)).2
              exact processMngIndex_unwritten processed (by decide)
        · obtain ⟨rfl, rfl⟩ := Prod.mk.inj (Except.ok.inj h)
          rfl

theorem mngRequestRead_quiet (h : mngRequestRead o fd c = .ok (ret, d))
    (waits : ret = MngState.requestReadIndex.num ∨ ret = MngState.requestRead.num) :
    d.writeBuffer = c.writeBuffer := by
  simp only [mngRequestRead] at h
  obtain ⟨x, -, h⟩ := bind_eq_ok.mp h
  split at h
  · exact absurd (Except.ok.inj h).symm (mngReplyStatus_moves waits)
  · split at h
    · obtain ⟨rfl, rfl⟩ := Prod.mk.inj (Except.ok.inj h)
      rfl
    · obtain ⟨rfl, rfl⟩ := Prod.mk.inj (Except.ok.inj h)
      rfl
    · obtain ⟨p, -, h⟩ := bind_eq_ok.mp h
      obtain ⟨⟨rb, p', state, error⟩, -, h⟩ := bind_eq_ok.mp h
      split at h
      · split at h
        · split at h
          · obtain ⟨rfl, rfl⟩ := Prod.mk.inj (Except.ok.inj h)
            rfl
          · obtain ⟨c', -, h⟩ := bind_eq_ok.mp h
            obtain ⟨rfl, rfl⟩ := Prod.mk.inj (Except.ok.inj h)
            rcases waits with waits | waits <;> cases waits
        · obtain ⟨rfl, rfl⟩ := Prod.mk.inj (Except.ok.inj h)
          rfl
      · obtain ⟨rfl, rfl⟩ := Prod.mk.inj (Except.ok.inj h)
        rfl

theorem mngRequestWrite_moves (h : mngRequestWrite o fd c = .ok (ret, d)) :
    ¬(ret = MngState.requestReadIndex.num ∨ ret = MngState.requestRead.num) := by
  intro waits
  simp only [mngRequestWrite] at h
  obtain ⟨x, -, h⟩ := bind_eq_ok.mp h
  split at h
  · obtain ⟨rfl, rfl⟩ := Prod.mk.inj (Except.ok.inj h)
    rcases waits with waits | waits <;> cases waits
  · have first := congrArg Prod.fst (Except.ok.inj h)
    simp only at first
    split at first
    · rcases waits with rfl | rfl <;> cases first
    · rcases waits with rfl | rfl <;> cases first

/-- An event past the negotiation. -/
theorem manages_quiet (manages : s.Manages) (quiet : s.Waits → s.conn.Quiet)
    (h : handleEvent e o s.conn.clientFd s = .ok t) (waits : t.Waits) : t.conn.Quiet := by
  obtain ⟨state, listed, ⟨mng, current⟩, -⟩ := manages
  have there : (statesOf s.conn.isSocks o s.conn.clientFd)[state.num]? =
      some (state.entry o s.conn.clientFd) := by
    rw [mng]
    exact clientMng_get o _ state
  obtain ⟨handler, ret, mid, last, picked, ran, stm, moved, ended⟩ := table_event current there h
  rw [mng] at ended moved
  have next : ret = MngState.requestReadIndex.num ∨ ret = MngState.requestRead.num := by
    unfold Session.Waits at waits
    rw [stm] at waits
    simpa using waits
  have early : ret < 7 := by
    rcases next with rfl | rfl <;> decide
  obtain rfl : t.conn = last := by
    rcases ended with ⟨terminal, -⟩ | ⟨-, same⟩
    · exact absurd terminal (not_terminal early)
    · exact same
  have kept : s.conn.Quiet ∧ mid.writeBuffer = s.conn.writeBuffer := by
    simp only [List.mem_cons, List.not_mem_nil, or_false] at listed
    rcases listed with rfl | rfl | rfl
    · cases e with
      | read =>
        obtain rfl := Option.some.inj picked
        exact ⟨quiet (.inl current), mngRequestIndexRead_quiet ran next⟩
      | write => cases picked
      | block => cases picked
    · cases e with
      | read =>
        obtain rfl := Option.some.inj picked
        exact ⟨quiet (.inr current), mngRequestRead_quiet ran next⟩
      | write => cases picked
      | block => cases picked
    · cases e with
      | read => cases picked
      | write =>
        obtain rfl := Option.some.inj picked
        exact absurd next (mngRequestWrite_moves ran)
      | block => cases picked
  refine quiet_writeBuffer kept.1 (Eq.trans ?_ kept.2)
  rcases moved with ⟨-, same⟩ | ⟨-, entry, left, found, departed, arrived⟩
  · rw [same]
  · obtain ⟨x, rfl⟩ := mngDeparture_client departed listed
    have arriving : ∀ {n : MngState}, n ∈ [MngState.requestReadIndex, .requestRead, .requestWrite] →
        ret = n.num → t.conn.writeBuffer = mid.writeBuffer := by
      rintro n there rfl
      obtain rfl := Option.some.inj ((clientMng_get o s.conn.clientFd n).symm.trans found)
      obtain ⟨y, eq⟩ := mngArrival_client arrived there
      rw [eq]
    rcases next with same | same
    · exact arriving (n := .requestReadIndex) (by decide) same
    · exact arriving (n := .requestRead) (by decide) same

theorem waits_beyond (waits : s.Waits) : s.Beyond := by
  rcases waits with current | current
  · exact ⟨_, current, by decide⟩
  · exact ⟨_, current, by decide⟩

/-- A session of the management port that still negotiates, or has nothing queued while
it reads a request. -/
theorem quiet_event (administers : s.Administers) (h : s.Negotiates ∨ s.Beyond ∧
    (s.Waits → s.conn.Quiet)) (held : s.conn.Holds fd) (fired : handleEvent e o fd s = .ok t)
    (waits : t.Waits) : t.conn.Quiet := by
  rcases h with negotiates | ⟨beyond, quiet⟩
  · obtain rfl := negotiates_held negotiates held
    have mng := administers.mng
    rcases talks_event negotiates.talks negotiates.methods negotiates.ends negotiates.footing.method
      fired with ⟨talks, -⟩ | ⟨ret, last, terminal, current, -⟩ |
        ⟨-, -, mid, talked, empty, -, arrival⟩
    · exact absurd talks (beyond_not_talks (waits_beyond waits))
    · rw [mng] at terminal
      unfold Session.Waits at waits
      rw [current] at waits
      have early : ret < 7 := by
        rcases waits with same | same <;> obtain rfl := Option.some.inj same <;> decide
      exact absurd terminal (not_terminal early)
    · rw [mng] at arrival
      have arrival : mngRequestIndexInit o s.conn.clientFd mid = .ok t.conn := arrival
      obtain ⟨x, eq⟩ := mngRequestIndexInit_ok arrival
      have quiet : mid.Quiet :=
        ⟨talked.limit.trans negotiates.limit, talked.rewound negotiates.rewound, empty⟩
      exact quiet_writeBuffer quiet (by rw [eq])
  · rcases administers.stage with ⟨footing, ⟨talks, -⟩ | manages⟩ | ⟨-, none'⟩
    · exact absurd talks (beyond_not_talks beyond)
    · obtain rfl : fd = s.conn.clientFd := by
        rcases footing.held fd held with same | ⟨on, -⟩
        · exact same
        · cases on
      exact manages_quiet manages quiet fired waits
    · exact absurd held (none' fd)

theorem quiet_step (administers : s.Administers)
    (h : s.Negotiates ∨ s.Beyond ∧ (s.Waits → s.conn.Quiet)) (step : Guarded s l t)
    (waits : t.Waits) : t.conn.Quiet := by
  have framed : ∀ {d : Conn}, s.conn.Framed d → (⟨s.stm, d⟩ : Session).Negotiates ∨
      (⟨s.stm, d⟩ : Session).Beyond ∧ ((⟨s.stm, d⟩ : Session).Waits → d.Quiet) := by
    intro d f
    obtain ⟨answer, record⟩ := f.record
    rcases h with negotiates | ⟨beyond, quiet⟩
    · exact .inl (negotiates_framed negotiates f)
    · exact .inr ⟨beyond, fun waits => quiet_writeBuffer (quiet waits) (by rw [record])⟩
  have idle : ∀ {d : Conn}, s.conn.Framed d → (⟨s.stm, d⟩ : Session).Waits → d.Quiet := by
    intro d f waits
    rcases framed f with negotiates | ⟨-, quiet⟩
    · exact absurd negotiates.talks (beyond_not_talks (waits_beyond waits))
    · exact quiet waits
  obtain ⟨allowed, fired⟩ := step
  cases l with
  | event e fd o =>
    have held : s.conn.Holds fd := ⟨allowed.1.1.2, allowed.1.2.1⟩
    cases e with
    | read => exact quiet_event administers h held fired waits
    | write => exact quiet_event administers h held fired waits
    | block =>
      have frame := framed_takeJob fd s
      exact quiet_event (administers_framed administers frame) (framed frame) held fired waits
  | resolved answer fd =>
    obtain rfl := Except.ok.inj fired
    exact idle (framed_resolved answer _ s) waits
  | env w =>
    obtain rfl := Except.ok.inj fired
    exact idle (framed_env allowed) waits

/-- Nothing is queued while a management request is read. -/
theorem waits_quiet (start : JustAccepted false s) (run : Run Guarded s ls t) (waits : t.Waits) :
    t.conn.Quiet := by
  have both : t.Negotiates ∨ t.Beyond ∧ (t.Waits → t.conn.Quiet) := by
    clear waits
    induction run with
    | start => exact .inl (accepted_negotiates start)
    | @next ls u t l run step ih =>
      have administers : u.Administers :=
        run.always (fun _ _ _ h step => administers_step h step) (accepted_administers start)
      have quiet := quiet_step administers ih step
      rcases ih with negotiates | ⟨beyond, -⟩
      · rcases negotiates_step negotiates step with next | beyond
        · exact .inl next
        · exact .inr ⟨beyond, quiet⟩
      · exact .inr ⟨beyond_step start run beyond step, quiet⟩
  rcases both with negotiates | ⟨-, quiet⟩
  · exact absurd negotiates.talks (beyond_not_talks (waits_beyond waits))
  · exact quiet waits

end

end SocksProxy
