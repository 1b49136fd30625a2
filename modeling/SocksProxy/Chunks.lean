import SocksProxy.Session

/-!
# A stream that arrives in chunks

A stage receives a chunk, consumes what its buffer holds, and waits for the next
chunk unless the consumer reported that it is done. `receive_spec`: however the
stream is cut, the stage ends where one loop over the whole stream would.
-/

namespace SocksProxy

open Lib

/-- A consumer returns the buffer, its state, and whether what it reports ends the stage. -/
abbrev Consumer (σ : Type) := Buffer → σ → Result (Buffer × σ × Bool)

/-- The last component is what was not received: nothing is, once the stage has ended. -/
def receive {σ : Type} (consumer : Consumer σ) :
    Buffer → σ → List (List UInt8) → Result (Buffer × σ × Bool × List (List UInt8))
  | b, s, [] => .ok (b, s, false, [])
  | b, s, chunk :: chunks =>
    consumer (bufferFill b chunk) s >>= fun r =>
      if r.2.2 then .ok (r.1, r.2.1, true, chunks) else receive consumer r.1 r.2.1 chunks

/-- `recv` gives at least one byte and at most what there is room for. Later chunks find the
buffer empty. -/
def Arrives (b : Buffer) : List (List UInt8) → Prop
  | [] => bufferReadPtr b = []
  | chunk :: chunks => chunk ≠ [] ∧ chunk.length ≤ bufferWritePtr b ∧
    ∀ c ∈ chunks, c ≠ [] ∧ c.length ≤ b.limit

/-- From states with `I` the consumer is the loop of `feed` over the unread bytes. -/
structure Consumes {σ : Type} (consumer : Consumer σ) (feed : σ → UInt8 → Result σ)
    (stop : σ → Bool) (I : σ → Prop) : Prop where
  loop : ∀ b s, I s → stop s = false → bufferReadPtr b ≠ [] → ∃ t b',
    feedUntil feed stop s (bufferReadPtr b) = .ok (t, bufferReadPtr b') ∧
    consumer b s = .ok (b', t, stop t) ∧ I t ∧ b'.limit = b.limit ∧ (b.Rewound → b'.Rewound)

section
variable {σ : Type} {consumer : Consumer σ} {feed : σ → UInt8 → Result σ} {stop : σ → Bool}
  {I : σ → Prop} {b : Buffer} {s : σ}

theorem bufferFill_fits {bytes : List UInt8} (fits : bytes.length ≤ bufferWritePtr b) :
    bufferReadPtr (bufferFill b bytes) = bufferReadPtr b ++ bytes ∧
      (bufferFill b bytes).limit = b.limit ∧ (b.Rewound → (bufferFill b bytes).Rewound) := by
  refine ⟨?_, bufferPut_limit _, bufferPut_rewound _⟩
  unfold bufferFill
  rw [bufferPut_readPtr, List.take_of_length_le fits]

theorem arrives_next {chunks : List (List UInt8)} (rewound : b.Rewound)
    (empty : bufferReadPtr b = []) (fit : ∀ c ∈ chunks, c ≠ [] ∧ c.length ≤ b.limit) :
    Arrives b chunks := by
  cases chunks with
  | nil => exact empty
  | cons chunk chunks =>
    obtain ⟨nonempty, short⟩ := fit chunk List.mem_cons_self
    refine ⟨nonempty, ?_, fun c member => fit c (List.mem_cons_of_mem _ member)⟩
    rw [(rewound.room empty).2.2]
    exact short

/-- Receiving a stream in chunks is one loop over the stream, and what the loop leaves is
unread in the buffer or not yet received. -/
theorem receive_spec {chunks : List (List UInt8)} (consumes : Consumes consumer feed stop I)
    (start : I s) (going : stop s = false) (rewound : b.Rewound) (arrives : Arrives b chunks) :
    ∃ t rest b' left,
      feedUntil feed stop s (bufferReadPtr b ++ chunks.flatten) = .ok (t, rest) ∧
      receive consumer b s chunks = .ok (b', t, stop t, left) ∧ I t ∧
      bufferReadPtr b' ++ left.flatten = rest ∧ left <:+ chunks ∧
      (stop t = false → left = [] ∧ bufferReadPtr b' = []) := by
  induction chunks generalizing b s with
  | nil =>
    have empty : bufferReadPtr b = [] := arrives
    refine ⟨s, [], b, [], ?_, ?_, start, ?_, List.suffix_rfl, fun _ => ⟨rfl, empty⟩⟩
    · simp [empty, feedUntil]
    · rw [receive, going]
    · simp [empty]
  | cons chunk chunks ih =>
    obtain ⟨nonempty, fits, later⟩ := arrives
    obtain ⟨unread, limit, rewinds⟩ := bufferFill_fits fits
    obtain ⟨t, b', fed, called, kept, limit', rewound'⟩ :=
      consumes.loop (bufferFill b chunk) s start going (by simp [unread, nonempty])
    have rewound' := rewound' (rewinds rewound)
    rw [unread] at fed
    rw [List.flatten_cons, ← List.append_assoc]
    by_cases stopped : stop t = true
    · have whole := feedUntil_append_stopped chunks.flatten (by simp [nonempty]) fed stopped
      refine ⟨t, _, b', chunks, whole, ?_, kept, rfl, List.suffix_cons _ _, fun runs => ?_⟩
      · rw [receive, called, ok_bind, if_pos stopped, stopped]
      · rw [stopped] at runs
        cases runs
    · have runs : stop t = false := Bool.eq_false_iff.mpr stopped
      obtain ⟨-, -, -, ends⟩ := feedUntil_consumed fed
      have drained : bufferReadPtr b' = [] := ends.resolve_left stopped
      have next := arrives_next rewound' drained fun c member => by
        rw [limit', limit]
        exact later c member
      obtain ⟨u, rest, b'', left, fed', received, kept', unread', suffix, going'⟩ :=
        ih kept runs rewound' next
      rw [drained] at fed
      rw [drained, List.nil_append] at fed'
      refine ⟨u, rest, b'', left, ?_, ?_, kept', unread', suffix.trans (List.suffix_cons _ _),
        going'⟩
      · rw [feedUntil_append_running fed runs]
        exact fed'
      · rw [receive, called, ok_bind, if_neg stopped]
        exact received

/-- A consumer that is `drain` with a feed that never fails. -/
theorem drain_consumes {step : σ → UInt8 → σ}
    (drains : ∀ b s, (consumer b s : Result (Buffer × σ × Bool)) =
      drain (fun s byte => .ok (step s byte)) stop (b.write - b.read) b s >>= fun r =>
        .ok (r.1, r.2, stop r.2)) :
    Consumes consumer (fun s byte => .ok (step s byte)) stop (fun _ => True) where
  loop b s _ _ _ := by
    have total : ∀ (xs : List UInt8) (s : σ), ∃ r,
        feedUntil (fun s byte => .ok (step s byte)) stop s xs = .ok r := by
      intro xs
      induction xs with
      | nil => exact fun s => ⟨_, rfl⟩
      | cons x xs ih =>
        intro s
        rw [feedUntil, ok_bind]
        split
        · exact ⟨_, rfl⟩
        · exact ih (step s x)
    obtain ⟨⟨t, rest⟩, fed⟩ := total (bufferReadPtr b) s
    obtain ⟨b', drained⟩ := drain_of_feedUntil (Nat.le_of_eq (bufferReadPtr_length b)) fed
    obtain ⟨fed', limit, rewound⟩ := drain_ok (Nat.le_of_eq (bufferReadPtr_length b)) drained
    refine ⟨t, b', fed', ?_, trivial, limit, rewound⟩
    rw [drains, drained]
    rfl

end

end SocksProxy
