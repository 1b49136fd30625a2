import SocksProxy.Relay
import SocksProxy.Lib.Average

/-!
# The average metrics

All connections share the metrics. `Traffic` is what happens to them: a relay
event of any connection, with the calls it makes, or a step that leaves the
averages alone. The averages are kept rounded, so they are the true ones after
every `recv` (or `send`) if and only if the remainders rise.
-/

namespace SocksProxy

open Lib

/-- The averages and the numbers they are taken over are the same. -/
structure Metrics.SameTallies (m m' : Metrics) : Prop where
  averageRead : m'.averageBytesPerRead = m.averageBytesPerRead
  reads : m'.totalReads = m.totalReads
  averageWrite : m'.averageBytesPerWrite = m.averageBytesPerWrite
  writes : m'.totalWrites = m.totalWrites

def Traffic (m : Metrics) (calls : List Call) (m' : Metrics) : Prop :=
  (∃ o fd c ret c', (copyRead o fd c = .ok (ret, c') ∨ copyWrite o fd c = .ok (ret, c')) ∧
    c.metrics = m ∧ c'.metrics = m' ∧ c'.calls = c.calls ++ calls) ∨
  calls = [] ∧ m.SameTallies m'

/-- The size of a `recv` that succeeded. -/
def Call.recvSize : Call → Option Nat
  | .recv _ (some (_ :: bytes)) => some (bytes.length + 1)
  | _ => none

/-- The size of a `send` that succeeded. -/
def Call.sendSize : Call → Option Nat
  | .send _ (some bytes) => some bytes.length
  | _ => none

/-- The sizes of the calls of a run. -/
def sizesOf (size : Call → Option Nat) (ls : List (Metrics × List Call)) : List Nat :=
  ls.flatMap fun l => l.2.filterMap size

/-- At every point of the run behind the first `recv`, the average was the true one of the
sizes so far, and the number was theirs. -/
def ReadsExact (ls : List (Metrics × List Call)) : Prop :=
  ∀ ms m, ms <+: ls → Run Traffic .zero ms m → sizesOf Call.recvSize ms ≠ [] →
    m.averageBytesPerRead.toNat =
      (sizesOf Call.recvSize ms).sum / (sizesOf Call.recvSize ms).length ∧
    m.totalReads.toNat = (sizesOf Call.recvSize ms).length

/-- The same for `send`. -/
def WritesExact (ls : List (Metrics × List Call)) : Prop :=
  ∀ ms m, ms <+: ls → Run Traffic .zero ms m → sizesOf Call.sendSize ms ≠ [] →
    m.averageBytesPerWrite.toNat =
      (sizesOf Call.sendSize ms).sum / (sizesOf Call.sendSize ms).length ∧
    m.totalWrites.toNat = (sizesOf Call.sendSize ms).length

section
variable {o : Outcome} {fd : Int} {c c' : Conn} {ret n : Nat} {m m' : Metrics} {calls : List Call}
  {ls : List (Metrics × List Call)}

/-! ## What a relay event does to the averages -/

theorem Metrics.SameTallies.refl (m : Metrics) : m.SameTallies m := ⟨rfl, rfl, rfl, rfl⟩

theorem copyComputeInterests_counts {d : CopySt} (h : copyComputeInterests d c = .ok c') :
    c'.calls = c.calls ∧ c'.metrics = c.metrics := by
  obtain ⟨sel, rfl, -⟩ := copyComputeInterests_ok h
  exact ⟨rfl, rfl⟩

theorem copyFinish_counts {side : Side} (h : copyFinish side c = .ok (ret, c')) :
    c'.calls = c.calls ∧ c.metrics.SameTallies c'.metrics := by
  simp only [copyFinish] at h
  obtain ⟨d, -, h⟩ := bind_eq_ok.mp h
  obtain ⟨c1, first, h⟩ := bind_eq_ok.mp h
  obtain ⟨other, -, h⟩ := bind_eq_ok.mp h
  obtain ⟨c2, second, h⟩ := bind_eq_ok.mp h
  obtain ⟨calls, metrics⟩ := copyComputeInterests_counts first
  obtain ⟨calls', metrics'⟩ := copyComputeInterests_counts second
  rw [← metrics, ← metrics', ← calls, ← calls']
  split at h
  · obtain ⟨-, rfl⟩ := Prod.mk.inj (Except.ok.inj h)
    exact ⟨rfl, rfl, rfl, rfl, rfl⟩
  · obtain ⟨-, rfl⟩ := Prod.mk.inj (Except.ok.inj h)
    exact ⟨rfl, .refl _⟩

theorem setBuffer_counts (c : Conn) (r : BufferRef) (b : Buffer) :
    (c.setBuffer r b).calls = c.calls ∧ (c.setBuffer r b).metrics = c.metrics := by
  cases r <;> exact ⟨rfl, rfl⟩

/-- Calls that are neither a `recv` nor a `send`. -/
def Shuts (calls : List Call) : Prop := ∀ call ∈ calls, ∃ fd how, call = .shutdown fd how

theorem copyClose_counts {side : Side} {d : CopySt} {how otherHow : How}
    {drop otherDrop : FdInterest → FdInterest}
    (h : copyClose side d how otherHow drop otherDrop c = .ok c') :
    c'.metrics = c.metrics ∧ ∃ calls, c'.calls = c.calls ++ calls ∧ Shuts calls := by
  have set (c : Conn) (side : Side) (d : CopySt) :
      (c.setCopy side d).calls = c.calls ∧ (c.setCopy side d).metrics = c.metrics := by
    cases side <;> exact ⟨rfl, rfl⟩
  simp only [copyClose] at h
  obtain ⟨other, -, h⟩ := bind_eq_ok.mp h
  split at h
  · obtain rfl := Except.ok.inj h
    refine ⟨(set _ _ _).2.trans (set _ _ _).2,
      [.shutdown d.fd how, .shutdown other.fd otherHow], ?_, ?_⟩
    · rw [(set _ _ _).1]
      simp only [Conn.log, (set _ _ _).1, List.append_assoc]
      rfl
    · intro call member
      simp only [List.mem_cons, List.not_mem_nil, or_false] at member
      rcases member with rfl | rfl
      · exact ⟨_, _, rfl⟩
      · exact ⟨_, _, rfl⟩
  · obtain rfl := Except.ok.inj h
    refine ⟨(set _ _ _).2, [.shutdown d.fd how], (set _ _ _).1, fun call member => ?_⟩
    exact ⟨_, _, List.mem_singleton.mp member⟩

theorem copyEnds_counts {side : Side} {d : CopySt} {how otherHow : How} {call : Call}
    {drop otherDrop : FdInterest → FdInterest}
    (h : (copyClose side d how otherHow drop otherDrop (c.log call) >>=
      fun c => copyFinish side c) = .ok (ret, c')) :
    c.metrics.SameTallies c'.metrics ∧
      ∃ calls, c'.calls = c.calls ++ call :: calls ∧ Shuts calls := by
  obtain ⟨e, closed, h⟩ := bind_eq_ok.mp h
  obtain ⟨metrics, calls, made, shuts⟩ := copyClose_counts closed
  obtain ⟨calls', same⟩ := copyFinish_counts h
  rw [metrics] at same
  refine ⟨same, calls, ?_, shuts⟩
  rw [calls', made]
  exact List.append_assoc _ _ _

/-- `copy_read` counts the bytes it received, or changes no average. -/
theorem copyRead_counts (h : copyRead o fd c = .ok (ret, c')) :
    (∃ bytes, bytes ≠ [] ∧ c'.calls = c.calls ++ [.recv fd (some bytes)] ∧
      (countRead c.metrics bytes.length).SameTallies c'.metrics) ∨
    c.metrics.SameTallies c'.metrics ∧ ∃ got calls, (got = none ∨ got = some []) ∧
      c'.calls = c.calls ++ .recv fd got :: calls ∧ Shuts calls := by
  simp only [copyRead] at h
  split at h
  · cases h
  · rename_i side _
    obtain ⟨d, -, h⟩ := bind_eq_ok.mp h
    split at h
    · cases h
    · split at h
      · rename_i got
        obtain ⟨same, calls, made, shuts⟩ := copyEnds_counts h
        exact Or.inr ⟨same, _, calls, Or.inl got, made, shuts⟩
      · rename_i got
        obtain ⟨same, calls, made, shuts⟩ := copyEnds_counts h
        exact Or.inr ⟨same, _, calls, Or.inr got, made, shuts⟩
      · rename_i byte bytes got
        have counted : ∀ {b : Buffer} {heap dissector}, copyFinish side (({
            c.log (.recv fd (recvBytes o (bufferWritePtr (c.buffer d.rb)))) with
              heap := heap, dissecParser := dissector
              metrics := countRead c.metrics (bytes.length + 1) } : Conn).setBuffer d.rb b) =
            .ok (ret, c') →
            c'.calls = c.calls ++ [.recv fd (some (byte :: bytes))] ∧
              (countRead c.metrics (bytes.length + 1)).SameTallies c'.metrics := by
          intro b heap dissector h
          obtain ⟨calls, same⟩ := copyFinish_counts h
          rw [(setBuffer_counts _ _ _).2] at same
          rw [calls, (setBuffer_counts _ _ _).1, got]
          exact ⟨rfl, same⟩
        refine Or.inl ⟨byte :: bytes, by simp, ?_⟩
        split at h
        · obtain ⟨s, -, h⟩ := bind_eq_ok.mp h
          exact counted h
        · exact counted h

/-- `copy_write` counts the bytes it sent, or changes no average. -/
theorem copyWrite_counts (h : copyWrite o fd c = .ok (ret, c')) :
    (∃ bytes, c'.calls = c.calls ++ [.send fd (some bytes)] ∧
      (countWrite c.metrics bytes.length).SameTallies c'.metrics) ∨
    c.metrics.SameTallies c'.metrics ∧ ∃ calls,
      c'.calls = c.calls ++ .send fd none :: calls ∧ Shuts calls := by
  simp only [copyWrite] at h
  split at h
  · cases h
  · obtain ⟨d, -, h⟩ := bind_eq_ok.mp h
    split at h
    · cases h
    · split at h
      · rename_i got
        obtain ⟨same, calls, made, shuts⟩ := copyEnds_counts h
        exact Or.inr ⟨same, calls, got ▸ made, shuts⟩
      · rename_i bytes got
        obtain ⟨calls, same⟩ := copyFinish_counts h
        rw [(setBuffer_counts _ _ _).2] at same
        refine Or.inl ⟨bytes, ?_, same⟩
        rw [calls, (setBuffer_counts _ _ _).1, got]
        rfl

/-! ## One average -/

/-- An average of the metrics, with the number of values behind it and the calls that count. -/
structure Tally where
  size : Call → Option Nat
  average : Metrics → UInt64
  total : Metrics → UInt64

/-- A step of the traffic gives the average no value or one. -/
structure Tally.Kept (T : Tally) : Prop where
  start : T.average .zero = 0 ∧ T.total .zero = 0
  step : ∀ {m calls m'}, Traffic m calls m' →
    (calls.filterMap T.size = [] ∧ T.average m' = T.average m ∧ T.total m' = T.total m) ∨
    ∃ n, calls.filterMap T.size = [n] ∧
      T.average m' = averageWith (T.average m) (T.total m) (UInt64.ofNat n) ∧
      T.total m' = T.total m + 1

theorem averageWith_toNat {average total : UInt64} {n : Nat}
    (sum : average.toNat * total.toNat + n < 2 ^ 64) (count : total.toNat + 1 < 2 ^ 64) :
    ((averageWith average total (UInt64.ofNat n)).toNat, (total + 1).toNat) =
      running (average.toNat, total.toNat) n := by
  have next : (total + 1).toNat = total.toNat + 1 := by
    rw [UInt64.toNat_add, UInt64.toNat_one, Nat.mod_eq_of_lt count]
  have small : (UInt64.ofNat n).toNat = n := by
    apply UInt64.toNat_ofNat_of_lt'
    change n < 2 ^ 64
    omega
  have product : (average * total).toNat = average.toNat * total.toNat := by
    rw [UInt64.toNat_mul, Nat.mod_eq_of_lt (by omega)]
  unfold averageWith running
  by_cases first : total = 0
  · subst first
    simp [small]
  · rw [if_neg first, UInt64.toNat_div, UInt64.toNat_add, product, small, next,
      Nat.mod_eq_of_lt sum]

theorem sizesOf_snoc (size : Call → Option Nat) (ls : List (Metrics × List Call))
    (l : Metrics × List Call) :
    sizesOf size (ls ++ [l]) = sizesOf size ls ++ l.2.filterMap size := by
  simp [sizesOf]

theorem sizesOf_earlier {ms : List (Metrics × List Call)} (size : Call → Option Nat)
    (pre : ms <+: ls) : sizesOf size ms <+: sizesOf size ls := by
  obtain ⟨rest, rfl⟩ := pre
  exact ⟨sizesOf size rest, by simp [sizesOf]⟩

/-- Along a run the average is the running average of the sizes, as long as their sum and
their number fit. -/
theorem Tally.Kept.holds {T : Tally} (kept : T.Kept) (run : Run Traffic .zero ls m)
    (sum : (sizesOf T.size ls).sum < 2 ^ 64) (count : (sizesOf T.size ls).length < 2 ^ 64) :
    ((T.average m).toNat, (T.total m).toNat) = runningOf (sizesOf T.size ls) := by
  induction run with
  | start =>
    rw [kept.start.1, kept.start.2]
    rfl
  | @next ls t u calls _ step ih =>
    rw [sizesOf_snoc] at sum count ⊢
    rw [List.sum_append] at sum
    rw [List.length_append] at count
    have before := ih (by omega) (by omega)
    rcases kept.step step with ⟨none, average, total⟩ | ⟨n, one, average, total⟩
    · rw [none, List.append_nil, average, total]
      exact before
    · rw [one] at sum count ⊢
      rw [List.sum_singleton] at sum
      rw [List.length_singleton] at count
      have length := runningOf_count (sizesOf T.size ls)
      have bound := runningOf_le_sum (sizesOf T.size ls)
      rw [← before] at length bound
      change (T.total t).toNat = _ at length
      rw [← length] at bound count
      change (T.average t).toNat * (T.total t).toNat ≤ _ at bound
      rw [average, total, averageWith_toNat (by omega) count, before, runningOf_snoc]

/-- A prefix of a run is a run. -/
theorem traffic_within {ms : List (Metrics × List Call)} (run : Run Traffic .zero ls m)
    (pre : ms <+: ls) : ∃ m', Run Traffic .zero ms m' := by
  induction run with
  | start => exact ⟨.zero, by rw [List.prefix_nil.mp pre]; exact .start⟩
  | @next ls t u calls before step ih =>
    rcases List.prefix_concat_iff.mp pre with rfl | pre
    · exact ⟨u, before.next step⟩
    · exact ih pre

/-- Every prefix of the sizes belongs to a prefix of the run. -/
theorem Tally.Kept.earlier {T : Tally} (kept : T.Kept) (run : Run Traffic .zero ls m) {p : List Nat}
    (pre : p <+: sizesOf T.size ls) : ∃ ms, ms <+: ls ∧ sizesOf T.size ms = p := by
  induction run with
  | start =>
    have none : p = [] := List.prefix_nil.mp pre
    exact ⟨[], List.prefix_rfl, none.symm⟩
  | @next ls t u calls _ step ih =>
    rw [sizesOf_snoc] at pre
    have whole (same : p = sizesOf T.size ls ++ calls.filterMap T.size) :
        ∃ ms, ms <+: ls ++ [(t, calls)] ∧ sizesOf T.size ms = p :=
      ⟨ls ++ [(t, calls)], List.prefix_rfl, by rw [sizesOf_snoc, same]⟩
    have earlier (pre : p <+: sizesOf T.size ls) :
        ∃ ms, ms <+: ls ++ [(t, calls)] ∧ sizesOf T.size ms = p := by
      obtain ⟨ms, within, same⟩ := ih pre
      exact ⟨ms, within.trans (List.prefix_append _ _), same⟩
    rcases kept.step step with ⟨none, -⟩ | ⟨n, one, -⟩
    · rw [none, List.append_nil] at pre
      exact earlier pre
    · rw [one] at pre whole
      rcases List.prefix_concat_iff.mp pre with same | pre
      · exact whole same
      · exact earlier pre

/-- The average was the true one after every value if and only if the remainders rose. -/
theorem Tally.Kept.exact_iff {T : Tally} (kept : T.Kept) (run : Run Traffic .zero ls m)
    (sum : (sizesOf T.size ls).sum < 2 ^ 64) (count : (sizesOf T.size ls).length < 2 ^ 64) :
    (∀ ms m, ms <+: ls → Run Traffic .zero ms m → sizesOf T.size ms ≠ [] →
      (T.average m).toNat = (sizesOf T.size ms).sum / (sizesOf T.size ms).length ∧
        (T.total m).toNat = (sizesOf T.size ms).length) ↔
      RemaindersRise (sizesOf T.size ls) := by
  have value {ms m'} (pre : ms <+: ls) (run : Run Traffic .zero ms m') :
      ((T.average m').toNat, (T.total m').toNat) = runningOf (sizesOf T.size ms) := by
    have short := sizesOf_earlier T.size pre
    have less : (sizesOf T.size ms).sum ≤ (sizesOf T.size ls).sum := by
      obtain ⟨rest, split⟩ := short
      rw [← split, List.sum_append]
      exact Nat.le_add_right _ _
    exact kept.holds run (Nat.lt_of_le_of_lt less sum) (Nat.lt_of_le_of_lt short.length_le count)
  rw [← runningOf_exact_iff]
  constructor
  · intro exact' p pre nonempty
    obtain ⟨ms, within, rfl⟩ := kept.earlier run pre
    obtain ⟨m', ran⟩ := traffic_within run within
    rw [← value within ran]
    exact (exact' ms m' within ran nonempty).1
  · intro exact' ms m' within ran nonempty
    have here := value within ran
    have first := exact' _ (sizesOf_earlier T.size within) nonempty
    have second := runningOf_count (sizesOf T.size ms)
    rw [← here] at first second
    exact ⟨first, second⟩

/-! ## The two averages -/

def readTally : Tally := ⟨Call.recvSize, Metrics.averageBytesPerRead, Metrics.totalReads⟩

def writeTally : Tally := ⟨Call.sendSize, Metrics.averageBytesPerWrite, Metrics.totalWrites⟩

theorem Shuts.uncounted (h : Shuts calls) :
    calls.filterMap Call.recvSize = [] ∧ calls.filterMap Call.sendSize = [] := by
  constructor
  · apply List.filterMap_eq_nil_iff.mpr
    intro call member
    obtain ⟨fd, how, rfl⟩ := h call member
    rfl
  · apply List.filterMap_eq_nil_iff.mpr
    intro call member
    obtain ⟨fd, how, rfl⟩ := h call member
    rfl

/-- A step is one `recv` that succeeded, one `send` that succeeded, or counts nothing. -/
theorem traffic_cases (h : Traffic m calls m') :
    (∃ fd byte bytes, calls = [.recv fd (some (byte :: bytes))] ∧
      (countRead m (bytes.length + 1)).SameTallies m') ∨
    (∃ fd bytes, calls = [.send fd (some bytes)] ∧ (countWrite m bytes.length).SameTallies m') ∨
    (calls.filterMap Call.recvSize = [] ∧ calls.filterMap Call.sendSize = []) ∧
      m.SameTallies m' := by
  rcases h with ⟨o, fd, c, ret, c', ran, rfl, rfl, made⟩ | ⟨rfl, same⟩
  · rcases ran with ran | ran
    · rcases copyRead_counts ran with
        ⟨bytes, some', once, same⟩ | ⟨same, got, shuts, none', once, shut⟩
      · obtain ⟨byte, bytes, rfl⟩ := List.exists_cons_of_ne_nil some'
        exact Or.inl ⟨fd, byte, bytes, List.append_cancel_left (made.symm.trans once), same⟩
      · have calls := List.append_cancel_left (made.symm.trans once)
        obtain ⟨recvs, sends⟩ := shut.uncounted
        refine Or.inr (Or.inr ⟨?_, same⟩)
        rw [calls]
        rcases none' with rfl | rfl
        · exact ⟨recvs, sends⟩
        · exact ⟨recvs, sends⟩
    · rcases copyWrite_counts ran with ⟨bytes, once, same⟩ | ⟨same, shuts, once, shut⟩
      · exact Or.inr (Or.inl ⟨fd, bytes, List.append_cancel_left (made.symm.trans once), same⟩)
      · have calls := List.append_cancel_left (made.symm.trans once)
        refine Or.inr (Or.inr ⟨?_, same⟩)
        rw [calls]
        exact shut.uncounted
  · exact Or.inr (Or.inr ⟨⟨rfl, rfl⟩, same⟩)

theorem readTally_kept : readTally.Kept where
  start := ⟨rfl, rfl⟩
  step h := by
    rcases traffic_cases h with ⟨fd, byte, bytes, rfl, same⟩ | ⟨fd, bytes, rfl, same⟩ | ⟨none, same⟩
    · exact Or.inr ⟨_, rfl, same.averageRead, same.reads⟩
    · exact Or.inl ⟨rfl, same.averageRead, same.reads⟩
    · exact Or.inl ⟨none.1, same.averageRead, same.reads⟩

theorem writeTally_kept : writeTally.Kept where
  start := ⟨rfl, rfl⟩
  step h := by
    rcases traffic_cases h with ⟨fd, byte, bytes, rfl, same⟩ | ⟨fd, bytes, rfl, same⟩ | ⟨none, same⟩
    · exact Or.inl ⟨rfl, same.averageWrite, same.writes⟩
    · exact Or.inr ⟨_, rfl, same.averageWrite, same.writes⟩
    · exact Or.inl ⟨none.2, same.averageWrite, same.writes⟩

/-- Every counted `recv` has a byte. -/
theorem recvSizes_count (ls : List (Metrics × List Call)) :
    (sizesOf Call.recvSize ls).length ≤ (sizesOf Call.recvSize ls).sum := by
  apply List.length_le_sum_of_one_le
  intro n member
  obtain ⟨l, -, member⟩ := List.mem_flatMap.mp member
  obtain ⟨call, -, size⟩ := List.mem_filterMap.mp member
  unfold Call.recvSize at size
  split at size
  · cases size
    exact Nat.succ_pos _
  · cases size

/-- The average metrics were the true averages after every `recv` and after every `send` if
and only if the remainders of the sums by their number never decreased. -/
theorem averages_exact_iff {ls : List (Metrics × List Call)} {m : Metrics}
    (run : Run Traffic .zero ls m) :
    ((sizesOf Call.recvSize ls).sum < 2 ^ 64 →
      (ReadsExact ls ↔ RemaindersRise (sizesOf Call.recvSize ls))) ∧
    ((sizesOf Call.sendSize ls).sum < 2 ^ 64 → (sizesOf Call.sendSize ls).length < 2 ^ 64 →
      (WritesExact ls ↔ RemaindersRise (sizesOf Call.sendSize ls))) := by
  constructor
  · intro sum
    exact readTally_kept.exact_iff run sum (Nat.lt_of_le_of_lt (recvSizes_count ls) sum)
  · intro sum count
    exact writeTally_kept.exact_iff run sum count

/-- A relay takes one event after another. -/
def relayTraffic : Conn → List (Event × Int × Outcome) → Option (List (Metrics × List Call) × Conn)
  | c, [] => some ([], c)
  | c, (e, fd, o) :: more =>
    match if e = .read then copyRead o fd c else copyWrite o fd c with
    | .error _ => none
    | .ok (_, c') => (relayTraffic c' more).map fun r =>
      ((c.metrics, c'.calls.drop c.calls.length) :: r.1, r.2)

theorem relayTraffic_run {events : List (Event × Int × Outcome)}
    (h : relayTraffic c events = some (ls, c')) : Run Traffic c.metrics ls c'.metrics := by
  induction events generalizing c ls with
  | nil =>
    cases h
    exact .start
  | cons event more ih =>
    obtain ⟨e, fd, o⟩ := event
    simp only [relayTraffic] at h
    split at h
    · cases h
    · rename_i ret d ran
      obtain ⟨⟨ms, last⟩, rest, h⟩ := Option.map_eq_some_iff.mp h
      cases h
      have step (calls : List Call) (made : d.calls = c.calls ++ calls) :
          Run Traffic c.metrics [(c.metrics, d.calls.drop c.calls.length)] d.metrics := by
        rw [made, List.drop_left]
        refine Run.single (Or.inl ⟨o, fd, c, ret, d, ?_, rfl, rfl, made⟩)
        split at ran
        · exact Or.inl ran
        · exact Or.inr ran
      have first : Run Traffic c.metrics [(c.metrics, d.calls.drop c.calls.length)] d.metrics := by
        split at ran
        · rcases copyRead_counts ran with ⟨bytes, -, once, -⟩ | ⟨-, got, calls, -, once, -⟩
          · exact step _ once
          · exact step _ once
        · rcases copyWrite_counts ran with ⟨bytes, once, -⟩ | ⟨-, calls, once, -⟩
          · exact step _ once
          · exact step _ once
      exact first.append (ih rest)

def untallied (m : Metrics) : Bool :=
  m.averageBytesPerRead == 0 && m.totalReads == 0 && m.averageBytesPerWrite == 0 &&
    m.totalWrites == 0

/-- The traffic up to the events of the first client's relay. -/
theorem firstTraffic (events : List (Event × Int × Outcome))
    (C : List (Metrics × List Call) → Metrics → Bool)
    (plays : firstRelay.any (fun r => untallied r.2.conn.metrics &&
      (relayTraffic r.2.conn events).any fun p => C p.1 p.2.metrics) = true) :
    ∃ ls m, Run Traffic .zero ((Metrics.zero, []) :: ls) m ∧ C ls m = true := by
  obtain ⟨r, -, plays⟩ := (Option.any_eq_true _ _).mp plays
  simp only [Bool.and_eq_true, untallied, beq_iff_eq] at plays
  obtain ⟨⟨⟨⟨first, second⟩, third⟩, fourth⟩, plays⟩ := plays
  obtain ⟨⟨ls, c⟩, counted, facts⟩ := (Option.any_eq_true _ _).mp plays
  have fresh : Metrics.zero.SameTallies r.2.conn.metrics := ⟨first, second, third, fourth⟩
  exact ⟨ls, c.metrics, (Run.single (Or.inr ⟨rfl, fresh⟩)).append (relayTraffic_run counted), facts⟩

/-- Two bytes are relayed, and then one. -/
theorem averages_exact_two : ∃ ls m, Run Traffic .zero ls m ∧
    sizesOf Call.recvSize ls = [2, 1] ∧ sizesOf Call.sendSize ls = [2, 1] ∧
    ReadsExact ls ∧ WritesExact ls := by
  obtain ⟨ls, m, run, facts⟩ := firstTraffic
    [received [1, 2], (.write, 6, .fine), received [3], (.write, 6, .fine)]
    (fun ls _ =>
      decide (sizesOf Call.recvSize ls = [2, 1] ∧ sizesOf Call.sendSize ls = [2, 1]))
    (by decide +kernel)
  obtain ⟨recvs, sends⟩ : sizesOf Call.recvSize ((Metrics.zero, []) :: ls) = [2, 1] ∧
    sizesOf Call.sendSize ((Metrics.zero, []) :: ls) = [2, 1] := of_decide_eq_true facts
  have rise : RemaindersRise [2, 1] := by
    intro j some' low
    obtain rfl : j = 1 := by simp at low; omega
    decide
  obtain ⟨reads, writes⟩ := averages_exact_iff run
  rw [recvs] at reads
  rw [sends] at writes
  exact ⟨_, m, run, recvs, sends, (reads (by decide)).mpr rise,
    (writes (by decide) (by decide)).mpr rise⟩

/-- After reads of two bytes, of one and of three, the average is 1 and the true one is 2. -/
theorem average_lost : ∃ ls m, Run Traffic .zero ls m ∧ sizesOf Call.recvSize ls = [2, 1, 3] ∧
    m.averageBytesPerRead = 1 ∧ ¬ ReadsExact ls := by
  obtain ⟨ls, m, run, facts⟩ := firstTraffic
    [received [1, 2], received [3], received [4, 5, 6]]
    (fun ls m => decide (sizesOf Call.recvSize ls = [2, 1, 3] ∧ m.averageBytesPerRead = 1))
    (by decide +kernel)
  obtain ⟨sizes, average⟩ : sizesOf Call.recvSize ((Metrics.zero, []) :: ls) = [2, 1, 3] ∧
    m.averageBytesPerRead = 1 := of_decide_eq_true facts
  refine ⟨_, m, run, sizes, average, fun exact' => ?_⟩
  have wrong := (exact' _ _ List.prefix_rfl run (by rw [sizes]; decide)).1
  rw [sizes, average] at wrong
  exact absurd wrong (by decide)

end

end SocksProxy
