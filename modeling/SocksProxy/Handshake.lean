import SocksProxy.Handlers

/-!
# The negotiation in a run

Connections of both kinds begin with the negotiation. As long as a session is in
it the selector holds the client's item alone, and once a session has left it
never comes back, so what the events of the negotiation keep holds of every
reachable session that is still in it.
-/

namespace SocksProxy

open Lib

/-- A session that is in the negotiation. -/
structure Session.Negotiates (s : Session) : Prop where
  footing : s.conn.Footing (-1) false
  talks : s.Talks
  methods : s.conn.Methods
  limit : s.conn.writeBuffer.limit = rawBuffSize
  rewound : s.conn.writeBuffer.Rewound

/-- A session that has left the negotiation. -/
def Session.Beyond (s : Session) : Prop := ∃ n, s.stm.current = some n ∧ 4 ≤ n

section
variable {s t u : Session} {ls : List (Session × Label)} {l : Label} {isSocks : Bool} {e : Event}
  {o : Outcome} {fd : Int} {k k' : Course} {act : Act}

theorem beyond_not_talks (beyond : s.Beyond) : ¬ s.Talks := by
  obtain ⟨n, current, late⟩ := beyond
  rintro (⟨⟨first, -⟩ | at' | at', -⟩ | ⟨at' | at', -⟩)
  · rw [first] at current
    cases current
  all_goals
    obtain rfl := Option.some.inj (at'.symm.trans current)
    exact absurd late (by decide)

/-- The one descriptor of a session in the negotiation is its client's. -/
theorem negotiates_held (h : s.Negotiates) (held : s.conn.Holds fd) : fd = s.conn.clientFd := by
  rcases h.footing.held fd held with same | ⟨on, -⟩
  · exact same
  · cases on

theorem Session.Negotiates.ends (h : s.Negotiates) : s.conn.Ends :=
  ⟨h.footing.errorState, h.footing.doneState⟩

/-- The first event finds the session as the arrival hook left it. -/
theorem first_negotiates (n : s.Negotiates) (first : s.stm.current = none) {start : Conn}
    (init : helloReadInit o s.conn.clientFd s.conn = .ok start) :
    start.clientFd = s.conn.clientFd ∧
      (⟨{ s.stm with current := some SocksV5State.helloRead.num }, start⟩ :
        Session).Negotiates := by
  have arrived : s.conn.Talked s.conn.clientFd start := by
    rcases helloReadInit_ok init with rfl | rfl
    · exact talked_client _ _ _
    · exact (talked_client _ _ _).trans (talked_log _ _ trivial)
  have interest : start.interestOf start.clientFd = opRead := by
    rcases n.talks with ⟨-, reading⟩ | ⟨at' | at', -⟩
    · rcases helloReadInit_ok init with rfl | rfl <;> exact reading
    · exact absurd (first.symm.trans at') (by simp)
    · exact absurd (first.symm.trans at') (by simp)
  exact ⟨arrived.same.clientFd, talked_footing n.footing arrived,
    Or.inl ⟨Or.inr (Or.inl rfl), interest⟩, methods_start n.footing.method init,
    arrived.limit.trans n.limit, arrived.rewound n.rewound⟩

theorem negotiates_framed {d : Conn} (h : s.Negotiates) (f : s.conn.Framed d) :
    (⟨s.stm, d⟩ : Session).Negotiates := by
  obtain ⟨answer, record⟩ := f.record
  have client : d.interestOf d.clientFd = s.conn.interestOf s.conn.clientFd := by
    rw [record]
    exact interestOf_framed f h.footing.client
  refine ⟨f.footing h.footing, ?_, ?_, ?_, ?_⟩
  · have talks := h.talks
    unfold Session.Talks at talks ⊢
    rw [client]
    exact talks
  · rw [record]
    exact h.methods
  · rw [record]
    exact h.limit
  · rw [record]
    exact h.rewound

theorem negotiates_event (h : s.Negotiates) (held : s.conn.Holds fd)
    (fired : handleEvent e o fd s = .ok t) : t.Negotiates ∨ t.Beyond := by
  obtain rfl := negotiates_held h held
  rcases talks_event h.talks h.methods h.ends h.footing.method fired with
      ⟨talks, methods, talked⟩ | ⟨ret, last, terminal, current, -, -⟩ | ⟨current, -⟩
  · exact Or.inl ⟨talked_footing h.footing talked, talks, methods, talked.limit.trans h.limit,
      talked.rewound h.rewound⟩
  · refine Or.inr ⟨ret, current, ?_⟩
    have late : ¬ ret < 7 := fun early => not_terminal early terminal
    omega
  · exact Or.inr ⟨_, current, by decide⟩

theorem negotiates_step (h : s.Negotiates) (step : Guarded s l t) : t.Negotiates ∨ t.Beyond := by
  obtain ⟨allowed, fired⟩ := step
  cases l with
  | event e fd o =>
    have held : s.conn.Holds fd := ⟨allowed.1.1.2, allowed.1.2.1⟩
    cases e with
    | read => exact negotiates_event h held fired
    | write => exact negotiates_event h held fired
    | block => exact negotiates_event (negotiates_framed h (framed_takeJob fd s)) held fired
  | resolved answer fd =>
    obtain rfl := Except.ok.inj fired
    exact Or.inl (negotiates_framed h (framed_resolved answer _ s))
  | env w =>
    obtain rfl := Except.ok.inj fired
    exact Or.inl (negotiates_framed h (framed_env allowed))

/-! ## There is no way back -/

theorem place_beyond (place : k.Place s) (late : k.phase ≠ .talking) : s.Beyond := by
  cases phase : k.phase <;> simp only [Course.Place, phase] at place
  case talking => exact absurd phase late
  all_goals exact ⟨_, place.1.2, by decide⟩

theorem step_late (late : k.phase ≠ .talking) (step : k.Step act k') : k'.phase ≠ .talking := by
  have tries : ∀ {k : Course} {addr result taken}, (k.attempt addr result taken).phase ≠ .talking := by
    intro k addr result taken
    unfold Course.attempt
    split
    · split <;> simp [Course.fail]
    · simp [Course.fail]
    · split <;> simp [Course.fail]
  cases step with
  | idle => exact late
  | first | retry | retryAfter => exact tries
  | request | breakDown | refuse | resolve | unresolved | noSocket | noNio | giveUp | unanswered |
      established | refused | copy | close | fail =>
    intro eq
    cases eq

theorem manages_beyond (manages : s.Manages) : s.Beyond := by
  obtain ⟨state, listed, ⟨-, current⟩, -⟩ := manages
  refine ⟨state.num, current, ?_⟩
  simp only [List.mem_cons, List.not_mem_nil, or_false] at listed
  rcases listed with rfl | rfl | rfl <;> decide

theorem beyond_step (start : JustAccepted isSocks s) (run : Run Guarded s ls t) (beyond : t.Beyond)
    (step : Guarded t l u) : u.Beyond := by
  cases isSocks with
  | true =>
    obtain ⟨k, place⟩ := run_place start run
    have late : k.phase ≠ .talking := by
      intro phase
      simp only [Course.Place, phase] at place
      exact beyond_not_talks beyond place.1
    obtain ⟨act, k', follows, place', -⟩ := step_advances place step
    exact place_beyond place' (step_late late follows)
  | false =>
    have administers : t.Administers :=
      run.always (fun _ _ _ h step => administers_step h step) (accepted_administers start)
    have frame : ∀ d, (⟨t.stm, d⟩ : Session).Beyond := fun _ => beyond
    have event : ∀ {e o fd} {v : Session}, v.Administers → v.Beyond → v.conn.Holds fd →
        handleEvent e o fd v = .ok u → u.Beyond := by
      intro e o fd v administers beyond held fired
      rcases administers.stage with ⟨footing, ⟨talks, -⟩ | manages⟩ | ⟨-, none'⟩
      · exact absurd talks (beyond_not_talks beyond)
      · obtain rfl : fd = v.conn.clientFd := by
          rcases footing.held fd held with same | ⟨on, -⟩
          · exact same
          · cases on
        rcases manages_event manages fired with ⟨manages, -⟩ | ⟨ret, last, terminal, current, -, -⟩
        · exact manages_beyond manages
        · refine ⟨ret, current, ?_⟩
          have late : ¬ ret < 7 := fun early => not_terminal early terminal
          omega
      · exact absurd held (none' fd)
    obtain ⟨allowed, fired⟩ := step
    cases l with
    | event e fd o =>
      have held : t.conn.Holds fd := ⟨allowed.1.1.2, allowed.1.2.1⟩
      cases e with
      | read => exact event administers beyond held fired
      | write => exact event administers beyond held fired
      | block => exact event (administers_framed administers (framed_takeJob fd t)) beyond held fired
    | resolved answer fd =>
      obtain rfl := Except.ok.inj fired
      exact frame _
    | env w =>
      obtain rfl := Except.ok.inj fired
      exact frame _

/-- An event that leaves the session in the negotiation does not end its connection. -/
theorem goes_on {n ret : Nat} {departure : Conn → Result Conn} {mid last : Conn}
    (goes : Goes isSocks o fd n departure mid ret last) (current : t.stm.current = some ret)
    (next : t.Negotiates) : ¬ Terminal isSocks ret ∧
      (ret = n ∧ last = mid ∨ ret ≠ n ∧ ∃ entry left, (statesOf isSocks o fd)[ret]? = some entry ∧
        departure mid = .ok left ∧ runHook entry.onArrival left = .ok last) := by
  have going : ¬ Terminal isSocks ret := by
    intro terminal
    have late : ¬ ret < 7 := fun early => not_terminal early terminal
    exact beyond_not_talks ⟨ret, current, by omega⟩ next.talks
  refine ⟨going, ?_⟩
  cases goes with
  | stays => exact Or.inl ⟨rfl, rfl⟩
  | moves ne _ there departed arrived => exact Or.inr ⟨ne, _, _, there, departed, arrived⟩
  | ends terminal => exact absurd terminal going

/-! ## The run -/

theorem accepted_negotiates (start : JustAccepted isSocks s) : s.Negotiates := by
  obtain ⟨footing, interest, stm, self, clientFd, clientAddr, record⟩ := accepted_footing start
  refine ⟨footing, Or.inl ⟨Or.inl ⟨?_, ?_⟩, interest⟩, ?_, ?_, ?_⟩
  · rw [stm]
  · rw [stm]
    cases isSocks <;> rfl
  · rw [record]
    intro d member
    cases member
  · rw [record]
    rfl
  · rw [record]
    exact fun _ => rfl

/-- What the steps of the negotiation keep, under a condition on them, holds of every
reachable session that is in it. -/
theorem negotiation_run {C : Session → Label → Prop} {G : Session → Prop}
    (keep : ∀ {s l t}, s.Negotiates → G s → C s l → Guarded s l t → t.Negotiates → G t)
    (start : JustAccepted isSocks s) (init : G s) (run : Run Guarded s ls t)
    (cond : ∀ p ∈ ls, C p.1 p.2) : t.Negotiates ∧ G t ∨ t.Beyond := by
  induction run with
  | start => exact Or.inl ⟨accepted_negotiates start, init⟩
  | @next ls t u l run step ih =>
    rcases ih fun p member => cond p (List.mem_append_left _ member) with
        ⟨negotiates, good⟩ | beyond
    · rcases negotiates_step negotiates step with next | beyond
      · exact Or.inl ⟨next, keep negotiates good (cond (t, l) (by simp)) step next⟩
      · exact Or.inr beyond
    · exact Or.inr (beyond_step start run beyond step)

end

end SocksProxy
