import SocksProxy.Chunks
import SocksProxy.HelloParser

/-!
# The method that is negotiated

Whatever the stream and however it is cut, the parser takes the version, the
number of methods and that many methods, or refuses a wrong version; and the
method it leaves selected is the configured one if the client offered it.
-/

namespace SocksProxy

open Lib

/-- `hello_consume`, with whether the state it returns ends the stage. -/
def helloConsumer : Consumer (HelloParser × UInt8) := fun b p =>
  helloConsume b p.1 p.2 >>= fun r => .ok (r.1, r.2.1, helloIsDone r.2.1.1.state)

/-- The method after the client offered `methods`; `data` was selected before. -/
def selectMethod (method data : UInt8) (methods : List UInt8) : UInt8 :=
  if method ∈ methods then method else data

/-- The greeting has come in part: neither its version is wrong nor its last method there. -/
def GreetingBegun (version : UInt8) (stream : List UInt8) : Prop :=
  stream = [] ∨ stream = [version] ∨
    ∃ n methods, stream = version :: n :: methods ∧ methods.length < n.toNat

section
variable {p : HelloParser} {data : UInt8} {stream rest : List UInt8}

theorem helloConsumer_consumes : Consumes helloConsumer
    (fun p byte => .ok (helloParserFeed p byte)) (fun p => helloIsDone p.1.state)
    (fun _ => True) := by
  refine drain_consumes fun b p => ?_
  obtain ⟨parser, data⟩ := p
  simp only [helloConsumer, helloConsume]
  cases drain (fun p byte => .ok (helloParserFeed p byte)) (fun p => helloIsDone p.1.state)
    (b.write - b.read) b (parser, data) with
  | error e => rfl
  | ok r => rfl

theorem selectMethod_cons (method data m : UInt8) (methods : List UInt8) :
    selectMethod method (if method = m then method else data) methods =
      selectMethod method data (m :: methods) := by
  unfold selectMethod
  by_cases same : method = m
  · simp [same]
  · simp [same]

/-- The countdown takes as many methods as there are to go, or all there are. -/
theorem methods_loop (methods : List UInt8) (state : p.state = .methods)
    (some' : 0 < p.remaining.toNat) :
    ∃ p', feedUntil (fun p byte => .ok (helloParserFeed p byte)) (fun p => helloIsDone p.1.state)
        (p, data) methods =
          .ok ((p', selectMethod p.method data (methods.take p.remaining.toNat)),
            methods.drop p.remaining.toNat) ∧
      p'.state = if p.remaining.toNat ≤ methods.length then .done else .methods := by
  induction methods generalizing p data with
  | nil =>
    refine ⟨p, ?_, ?_⟩
    · simp [feedUntil, selectMethod]
    · rw [state, List.length_nil, if_neg (by omega)]
  | cons m methods ih =>
    have one : (1 : UInt8) ≤ p.remaining := UInt8.le_iff_toNat_le.mpr some'
    have fewer : (p.remaining - 1).toNat = p.remaining.toNat - 1 := by
      rw [UInt8.toNat_sub_of_le _ _ one, UInt8.toNat_one]
    have ends : p.remaining - 1 ≤ 0 ↔ p.remaining.toNat = 1 := by
      rw [UInt8.le_iff_toNat_le, fewer, UInt8.toNat_zero]
      omega
    have taken : (m :: methods).take p.remaining.toNat =
        m :: methods.take (p.remaining.toNat - 1) := List.take_cons some'
    have left : (m :: methods).drop p.remaining.toNat =
        methods.drop (p.remaining.toNat - 1) := List.drop_cons some'
    rw [taken, left, ← selectMethod_cons]
    let next : HelloParser := { p with
      remaining := p.remaining - 1
      state := if p.remaining - 1 ≤ 0 then .done else .methods }
    have fed : helloParserFeed (p, data) m =
        (next, if p.method = m then p.method else data) := by
      simp only [helloParserFeed, state, onHelloMethod, next]
      by_cases same : p.method = m
      · simp [same]
      · simp [same]
    rw [feedUntil, ok_bind, fed]
    by_cases last : p.remaining.toNat = 1
    · have stopped : next.state = .done := if_pos (ends.mpr last)
      refine ⟨next, ?_, ?_⟩
      · simp [stopped, helloIsDone, last, selectMethod]
      · rw [stopped, if_pos (by rw [last, List.length_cons]; omega)]
    · have going : next.state = .methods := if_neg (mt ends.mp last)
      have count : next.remaining.toNat = p.remaining.toNat - 1 := fewer
      obtain ⟨p', ran, state'⟩ :=
        @ih next (if p.method = m then p.method else data) going (by rw [count]; omega)
      rw [count] at ran state'
      have runs : helloIsDone next.state = false := by rw [going]; rfl
      refine ⟨p', ?_, ?_⟩
      · simp only [runs]
        exact ran
      · rw [state', List.length_cons]
        congr 1
        exact propext (by omega)

theorem version_fed (p : HelloParser) : helloParserFeed (helloParserInit p, 0xFF) p.version =
    ({ p with state := .nmethods, remaining := 0 }, 0xFF) := by
  simp [helloParserFeed, helloParserInit]

/-- The right version, the number of methods, and what there is of the methods. -/
theorem greeting_loop (p : HelloParser) (n : UInt8) (xs : List UInt8) :
    ∃ p', feedUntil (fun p byte => .ok (helloParserFeed p byte)) (fun p => helloIsDone p.1.state)
        (helloParserInit p, 0xFF) (p.version :: n :: xs) =
          .ok ((p', selectMethod p.method 0xFF (xs.take n.toNat)), xs.drop n.toNat) ∧
      p'.state = if n.toNat ≤ xs.length then .done else .methods := by
  have count : helloParserFeed ({ p with state := .nmethods, remaining := 0 }, 0xFF) n =
      ({ p with state := if n ≤ 0 then .done else .methods, remaining := n }, 0xFF) := rfl
  simp only [feedUntil, version_fed, count, ok_bind, helloIsDone, Bool.false_eq_true, if_false]
  by_cases none : n.toNat = 0
  · obtain rfl : n = 0 := UInt8.toNat_inj.mp none
    refine ⟨{ p with state := .done, remaining := 0 }, ?_, ?_⟩
    · simp [selectMethod]
    · simp
  · have some' : ¬ n ≤ 0 := by
      rw [UInt8.le_iff_toNat_le, UInt8.toNat_zero]
      omega
    simp only [if_neg some', Bool.false_eq_true, if_false]
    exact methods_loop xs rfl (Nat.pos_of_ne_zero none)

/-- A greeting is taken up to its last method, a wrong version alone is refused, and the rest is
left; anything else is taken whole, and more is awaited. -/
theorem method_negotiated (p : HelloParser) {b : Buffer} {chunks : List (List UInt8)}
    (rewound : b.Rewound) (arrives : Arrives b chunks) :
    ∃ b' p' method left, receive helloConsumer b (helloParserInit p, 0xFF) chunks =
        .ok (b', (p', method), helloIsDone p'.state, left) ∧ left <:+ chunks ∧
      (∀ n methods rest, methods.length = n.toNat →
        bufferReadPtr b ++ chunks.flatten = p.version :: n :: (methods ++ rest) →
        p'.state = .done ∧ bufferReadPtr b' ++ left.flatten = rest ∧
          method = if p.method ∈ methods then p.method else 0xFF) ∧
      (∀ v rest, v ≠ p.version → bufferReadPtr b ++ chunks.flatten = v :: rest →
        p'.state = .errorUnsupportedVersion ∧ bufferReadPtr b' ++ left.flatten = rest) ∧
      (GreetingBegun p.version (bufferReadPtr b ++ chunks.flatten) →
        helloIsDone p'.state = false ∧ bufferReadPtr b' ++ left.flatten = []) := by
  obtain ⟨⟨p', method⟩, rest, b', left, fed, received, -, unread, suffix, waits⟩ :=
    receive_spec helloConsumer_consumes (s := (helloParserInit p, 0xFF)) trivial rfl rewound arrives
  refine ⟨b', p', method, left, received, suffix, ?_, ?_, ?_⟩
  · intro n methods more length whole
    obtain ⟨q, ran, state⟩ := greeting_loop p n (methods ++ more)
    rw [whole, ran, ← length, List.take_left, List.drop_left] at fed
    simp only [Except.ok.injEq, Prod.mk.injEq] at fed
    obtain ⟨⟨rfl, rfl⟩, rfl⟩ := fed
    rw [← length, List.length_append, if_pos (Nat.le_add_right _ _)] at state
    exact ⟨state, unread, rfl⟩
  · intro v more wrong whole
    have refused : helloParserFeed (helloParserInit p, 0xFF) v =
        ({ p with state := .errorUnsupportedVersion, remaining := 0 }, 0xFF) := by
      simp [helloParserFeed, helloParserInit, wrong]
    rw [whole] at fed
    simp only [feedUntil, refused, ok_bind, helloIsDone, if_true, Except.ok.injEq,
      Prod.mk.injEq] at fed
    obtain ⟨⟨rfl, rfl⟩, rfl⟩ := fed
    exact ⟨rfl, unread⟩
  · intro begun
    have going : helloIsDone p'.state = false := by
      rcases begun with none | one | ⟨n, methods, whole, short⟩
      · rw [none] at fed
        simp only [feedUntil, Except.ok.injEq, Prod.mk.injEq] at fed
        obtain ⟨⟨rfl, -⟩, -⟩ := fed
        rfl
      · rw [one] at fed
        simp only [feedUntil, version_fed, ok_bind, helloIsDone, Bool.false_eq_true, if_false,
          Except.ok.injEq, Prod.mk.injEq] at fed
        obtain ⟨⟨rfl, -⟩, -⟩ := fed
        rfl
      · obtain ⟨q, ran, state⟩ := greeting_loop p n methods
        rw [whole, ran] at fed
        simp only [Except.ok.injEq, Prod.mk.injEq] at fed
        obtain ⟨⟨rfl, -⟩, -⟩ := fed
        rw [state, if_neg (by omega)]
        rfl
    obtain ⟨none, drained⟩ := waits going
    rw [none, drained]
    exact ⟨going, rfl⟩

/-- Three methods are offered, the configured one last, and a byte follows. -/
theorem method_negotiated_last : ∃ b' p' method left,
    receive helloConsumer (bufferInit 16 (List.replicate 16 0) rfl)
        (helloParserInit ⟨0x05, 0x02, .version, 0⟩, 0xFF) [[5], [3, 0, 1, 2, 9]] =
      .ok (b', (p', method), helloIsDone p'.state, left) ∧ p'.state = .done ∧
    bufferReadPtr b' ++ left.flatten = [9] ∧ method = 0x02 := by
  have rewound : (bufferInit 16 (List.replicate 16 0) rfl).Rewound := fun _ => rfl
  have arrives : Arrives (bufferInit 16 (List.replicate 16 0) rfl) [[5], [3, 0, 1, 2, 9]] :=
    arrives_next rewound rfl (by decide)
  obtain ⟨b', p', method, left, received, -, whole, -, -⟩ :=
    method_negotiated ⟨0x05, 0x02, .version, 0⟩ rewound arrives
  obtain ⟨state, unread, selected⟩ := whole 3 [0, 1, 2] [9] rfl rfl
  exact ⟨b', p', method, left, received, state, unread, selected⟩

end

end SocksProxy
