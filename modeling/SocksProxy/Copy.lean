import SocksProxy.Session

/-!
# copy.c: the relay

The two `copy_st` use the two buffers crosswise. `copySide` finds them in the
two unions of the record.
-/

namespace SocksProxy

open Lib

/-- Stops the process when the selector refuses the interest. -/
def copyComputeInterests (d : CopySt) (c : Conn) : Result Conn :=
  if d.fd ≠ -1 then
    let ret : FdInterest :=
      ⟨d.interest.read && bufferCanWrite (c.buffer d.rb),
        d.interest.write && bufferCanRead (c.buffer d.wb)⟩
    if c.interestStatus d.fd ret = .success then .ok (c.setInterest d.fd ret) else .error .abort
  else .ok c

def opReadWrite : FdInterest := ⟨true, true⟩

def copyInit (_fd : Int) (c : Conn) : Result Conn := do
  let client : CopySt := ⟨c.clientFd, .readBuffer, .writeBuffer, opReadWrite, .orig⟩
  let orig : CopySt := ⟨c.originFd, .writeBuffer, .readBuffer, opReadWrite, .client⟩
  let c := { c with client := .copy client, orig := .copy orig }
  let c ← copyComputeInterests orig c
  copyComputeInterests client c

/-- `none` is NULL. -/
def copyPtr (fd : Int) (c : Conn) : Option Side :=
  if fd = c.originFd then some .orig else if fd = c.clientFd then some .client else none

/-- The running average over `total` values, taken up to one more. -/
def averageWith (average total n : UInt64) : UInt64 :=
  if total = 0 then n else (average * total + n) / (total + 1)

def countRead (m : Metrics) (n : Nat) : Metrics :=
  { m with
    averageBytesPerRead := averageWith m.averageBytesPerRead m.totalReads (UInt64.ofNat n)
    totalReads := m.totalReads + 1
    historicByteTransfer := m.historicByteTransfer + UInt64.ofNat n }

def countWrite (m : Metrics) (n : Nat) : Metrics :=
  { m with
    averageBytesPerWrite := averageWith m.averageBytesPerWrite m.totalWrites (UInt64.ofNat n)
    totalWrites := m.totalWrites + 1
    historicByteTransfer := m.historicByteTransfer + UInt64.ofNat n }

/-- A side gives up reading (or writing) and the other side the opposite. -/
def copyClose (side : Side) (d : CopySt) (how otherHow : How) (drop otherDrop : FdInterest → FdInterest)
    (c : Conn) : Result Conn := do
  let c := (c.log (.shutdown d.fd how)).setCopy side { d with interest := drop d.interest }
  let other ← c.copySide d.otherCopy
  if other.fd ≠ -1 then
    .ok ((c.log (.shutdown other.fd otherHow)).setCopy d.otherCopy
      { other with interest := otherDrop other.interest })
  else .ok c

def dropRead (i : FdInterest) : FdInterest := { i with read := false }
def dropWrite (i : FdInterest) : FdInterest := { i with write := false }

/-- The common end of `copy_read` and `copy_write`. -/
def copyFinish (side : Side) (c : Conn) : Result (Nat × Conn) := do
  let d ← c.copySide side
  let c ← copyComputeInterests d c
  let other ← c.copySide d.otherCopy
  let c ← copyComputeInterests other c
  if d.interest = opNoop then
    .ok (SocksV5State.done.num, { c with metrics := { c.metrics with
      concurrentConnections := c.metrics.concurrentConnections - 1 } })
  else .ok (SocksV5State.copy.num, c)

def copyRead (o : Outcome) (fd : Int) (c : Conn) : Result (Nat × Conn) :=
  match copyPtr fd c with
  | none => .error .exit
  | some side => do
    let d ← c.copySide side
    if d.fd ≠ fd then .error .assertion
    else
      let b := c.buffer d.rb
      let received := recvBytes o (bufferWritePtr b)
      let c := c.log (.recv fd received)
      match received with
      | none | some [] =>
        let c ← copyClose side d .shutRd .shutWr dropRead dropWrite c
        copyFinish side c
      | some (byte :: bytes) =>
        let s ← if c.passwordDissectors = 0x00 then
            dissecConsume (c.users.slots c.userIndex).name (byte :: bytes) (c.heap, c.dissecParser)
          else .ok (c.heap, c.dissecParser)
        let c := { c with
          heap := s.1, dissecParser := s.2, metrics := countRead c.metrics (bytes.length + 1) }
        copyFinish side (c.setBuffer d.rb (bufferFill b (byte :: bytes)))

/-- `copy_write` does not test the pointer before it is used. -/
def copyWrite (o : Outcome) (fd : Int) (c : Conn) : Result (Nat × Conn) :=
  match copyPtr fd c with
  | none => .error .nullPointer
  | some side => do
    let d ← c.copySide side
    if d.fd ≠ fd then .error .assertion
    else
      let b := c.buffer d.wb
      let sent := sentBytes o b
      let c := c.log (.send fd sent)
      match sent with
      | none =>
        let c ← copyClose side d .shutWr .shutRd dropWrite dropRead c
        copyFinish side c
      | some bytes =>
        let c := { c with metrics := countWrite c.metrics bytes.length }
        copyFinish side (c.setBuffer d.wb (bufferTake b bytes.length))

/-! ## The shape of a record that relays -/

def Side.rb : Side → BufferRef
  | .client => .readBuffer
  | .orig => .writeBuffer

def Side.other : Side → Side
  | .client => .orig
  | .orig => .client

/-- What a side writes is what the other side reads. -/
def Side.wb (side : Side) : BufferRef := side.other.rb

def Socks5.fdOf (c : Socks5) : Side → Int
  | .client => c.clientFd
  | .orig => c.originFd

/-- Both unions hold their `copy_st`, with the interests `I`. -/
def Socks5.Copying (c : Socks5) (I : Side → FdInterest) : Prop :=
  ∀ side, c.copySide side = .ok ⟨c.fdOf side, side.rb, side.wb, I side, side.other⟩

/-- The selector's interest for a side that has interest `i`. -/
def Socks5.wants (c : Socks5) (side : Side) (i : FdInterest) : FdInterest :=
  ⟨i.read && bufferCanWrite (c.buffer side.rb), i.write && bufferCanRead (c.buffer side.wb)⟩

/-- The selector watches each open side for what it wants. -/
def Conn.Watched (c : Conn) (I : Side → FdInterest) : Prop :=
  ∀ side, c.fdOf side ≠ -1 → c.sel.Registered (c.fdOf side) ∧
    (c.sel.fds (c.fdOf side)).interest = c.wants side (I side)

@[simp] theorem other_other (side : Side) : side.other.other = side := by cases side <;> rfl

theorem other_ne (side : Side) : side.other ≠ side := by cases side <;> simp [Side.other]

theorem rb_ne_wb (side : Side) : side.rb ≠ side.wb := by cases side <;> simp [Side.rb, Side.wb, Side.other]

theorem side_cases (side s : Side) : s = side ∨ s = side.other := by
  cases side <;> cases s <;> simp [Side.other]

@[simp] theorem buffer_setBuffer (c : Conn) (r : BufferRef) (b : Buffer) :
    (c.setBuffer r b).buffer r = b := by cases r <;> rfl

theorem buffer_setBuffer_ne (c : Conn) {r r' : BufferRef} (b : Buffer) (h : r' ≠ r) :
    (c.setBuffer r b).buffer r' = c.buffer r' := by
  cases r <;> cases r' <;> first | rfl | exact absurd rfl h

theorem copying_setBuffer {c : Conn} {I : Side → FdInterest} (shape : c.Copying I) (r : BufferRef)
    (b : Buffer) : (c.setBuffer r b).Copying I := by
  intro side
  have := shape side
  cases r <;> cases side <;> exact this

theorem copying_setCopy {c : Conn} {I : Side → FdInterest} (shape : c.Copying I) (side : Side)
    (i : FdInterest) :
    (c.setCopy side ⟨c.fdOf side, side.rb, side.wb, i, side.other⟩).Copying
      (Function.update I side i) := by
  intro s
  have := shape s
  cases side <;> cases s <;> first | exact this | rfl

theorem setCopy_fields (c : Conn) (side : Side) (d : CopySt) :
    ∃ client orig, c.setCopy side d = { c with client := client, orig := orig } := by
  cases side
  · exact ⟨.copy d, c.orig, rfl⟩
  · exact ⟨c.client, .copy d, rfl⟩

/-- Setting an interest: the selector took it, or there is no descriptor. -/
theorem copyComputeInterests_ok {d : CopySt} {c c' : Conn} (h : copyComputeInterests d c = .ok c') :
    ∃ sel, c' = { c with sel := sel } ∧ c.sel.Retuned [d.fd] sel ∧
      (d.fd ≠ -1 → c.sel.Registered d.fd ∧
        (sel.fds d.fd).interest = ⟨d.interest.read && bufferCanWrite (c.buffer d.rb),
          d.interest.write && bufferCanRead (c.buffer d.wb)⟩) := by
  simp only [copyComputeInterests] at h
  split at h
  · split at h
    · rename_i accepted
      simp only [Except.ok.injEq] at h
      have registered : c.sel.Registered d.fd := by
        simp only [Conn.interestStatus, selectorStatus, setInterest_status] at accepted
        by_contra out
        simp [out] at accepted
      refine ⟨_, h.symm, setInterest_retuned _ _ _, fun _ => ⟨registered, ?_⟩⟩
      simp [setInterest_fds, registered]
    · cases h
  · rename_i closed
    simp only [Except.ok.injEq] at h
    exact ⟨c.sel, by rw [← h], .refl _ _, fun isOpen => absurd isOpen closed⟩

theorem copyFinish_ok {side : Side} {c c' : Conn} {I : Side → FdInterest} {ret : Nat}
    (shape : c.Copying I) (h : copyFinish side c = .ok (ret, c')) :
    ∃ sel metrics, c' = { c with sel := sel, metrics := metrics } ∧
      ret = (if I side = opNoop then SocksV5State.done.num else SocksV5State.copy.num) ∧
      c.sel.Retuned [c.fdOf side, c.fdOf side.other] sel ∧
      (c.clientFd ≠ c.originFd → c'.Watched I) := by
  simp only [copyFinish, shape side, ok_bind] at h
  obtain ⟨c1, first, h⟩ := bind_eq_ok.mp h
  obtain ⟨sel1, rfl, tuned1, watched1⟩ := copyComputeInterests_ok first
  simp only [shape side.other, ok_bind] at h
  obtain ⟨c2, second, h⟩ := bind_eq_ok.mp h
  obtain ⟨sel2, rfl, tuned2, watched2⟩ := copyComputeInterests_ok second
  have watched : c.clientFd ≠ c.originFd →
      ∀ m, ({ c with sel := sel2, metrics := m } : Conn).Watched I := by
    intro distinct m s
    have apart : c.fdOf side ≠ c.fdOf side.other := by
      cases side
      · exact distinct
      · exact distinct.symm
    intro isOpen
    rcases side_cases side s with rfl | rfl
    · have w := watched1 isOpen
      refine ⟨(tuned2.registered _).mpr ((tuned1.registered _).mpr w.1), ?_⟩
      have same : sel2.fds (c.fdOf s) = sel1.fds (c.fdOf s) :=
        tuned2.outside _ (by simpa using apart)
      rw [same, w.2]
      cases s <;> rfl
    · have w := watched2 isOpen
      exact ⟨(tuned2.registered _).mpr w.1, w.2⟩
  have tuned := tuned1.trans tuned2
  split at h
  · rename_i idle
    simp only [Except.ok.injEq, Prod.mk.injEq] at h
    obtain ⟨rfl, rfl⟩ := h
    exact ⟨sel2, _, rfl, by simp [idle], tuned, fun distinct => watched distinct _⟩
  · rename_i busy
    simp only [Except.ok.injEq, Prod.mk.injEq] at h
    obtain ⟨rfl, rfl⟩ := h
    exact ⟨sel2, c.metrics, rfl, by simp [busy], tuned, fun distinct => watched distinct _⟩

/-- The relay starts with both interests on both sides. -/
theorem copyInit_ok {fd : Int} {c c' : Conn} (h : copyInit fd c = .ok c') :
    c'.Copying (fun _ => opReadWrite) ∧ c.Same c' ∧ c'.buffer = c.buffer ∧ c'.calls = c.calls ∧
      c.sel.Retuned [c.originFd, c.clientFd] c'.sel ∧
      (c.clientFd ≠ c.originFd → c'.Watched (fun _ => opReadWrite)) := by
  simp only [copyInit] at h
  obtain ⟨d, first, h⟩ := bind_eq_ok.mp h
  obtain ⟨sel1, rfl, tuned1, watched1⟩ := copyComputeInterests_ok first
  obtain ⟨sel2, rfl, tuned2, watched2⟩ := copyComputeInterests_ok h
  refine ⟨fun side => by cases side <;> rfl, ⟨rfl, rfl, rfl, rfl, rfl, rfl, rfl, rfl⟩, rfl, rfl,
    tuned1.trans tuned2, fun distinct side isOpen => ?_⟩
  cases side with
  | client =>
    have w := watched2 isOpen
    exact ⟨(tuned2.registered _).mpr w.1, w.2⟩
  | orig =>
    have w := watched1 isOpen
    refine ⟨(tuned2.registered _).mpr ((tuned1.registered _).mpr w.1), ?_⟩
    have same : sel2.fds c.originFd = sel1.fds c.originFd :=
      tuned2.outside _ (by simpa using distinct.symm)
    change (sel2.fds c.originFd).interest = _
    rw [same, w.2]
    rfl

/-- The shutdowns of a side and, if it is open, of the other side. -/
def shutdowns (c : Socks5) (side : Side) (how otherHow : How) : List Call :=
  .shutdown (c.fdOf side) how ::
    if c.fdOf side.other ≠ -1 then [.shutdown (c.fdOf side.other) otherHow] else []

theorem copyClose_ok {side : Side} {how otherHow : How} {drop otherDrop : FdInterest → FdInterest}
    {c c' : Conn} {I : Side → FdInterest} (shape : c.Copying I)
    (h : copyClose side ⟨c.fdOf side, side.rb, side.wb, I side, side.other⟩ how otherHow drop
      otherDrop c = .ok c') :
    ∃ I', c'.Copying I' ∧ I' side = drop (I side) ∧
      I' side.other = (if c.fdOf side.other ≠ -1 then otherDrop (I side.other) else I side.other) ∧
      ∃ client orig, c' = { c with
        client := client, orig := orig, calls := c.calls ++ shutdowns c.toSocks5 side how otherHow } := by
  simp only [copyClose] at h
  -- the record once the side itself has dropped its interest
  obtain ⟨x, own⟩ : ∃ x, x = (c.log (.shutdown (c.fdOf side) how)).setCopy side
      ⟨c.fdOf side, side.rb, side.wb, drop (I side), side.other⟩ := ⟨_, rfl⟩
  have shape1 : x.Copying (Function.update I side (drop (I side))) := by
    rw [own]
    exact copying_setCopy (c := c.log (.shutdown (c.fdOf side) how)) (fun s => shape s) side _
  obtain ⟨client, orig, fields⟩ := setCopy_fields (c.log (.shutdown (c.fdOf side) how)) side
    ⟨c.fdOf side, side.rb, side.wb, drop (I side), side.other⟩
  rw [← own] at h fields
  have fds : x.fdOf = c.fdOf := by
    rw [fields]
    rfl
  have other1 := shape1 side.other
  rw [Function.update_of_ne (other_ne side), fds] at other1
  simp only [other1, ok_bind] at h
  split at h
  · rename_i isOpen
    obtain rfl := Except.ok.inj h
    refine ⟨Function.update (Function.update I side (drop (I side))) side.other
      (otherDrop (I side.other)), ?_, ?_, ?_, ?_⟩
    · have shape2 := copying_setCopy (c := x.log (.shutdown (c.fdOf side.other) otherHow))
        (fun s => shape1 s) side.other (otherDrop (I side.other))
      rw [show (x.log (.shutdown (c.fdOf side.other) otherHow)).fdOf = c.fdOf from fds] at shape2
      exact shape2
    · rw [Function.update_of_ne (other_ne side).symm, Function.update_self]
    · simp [isOpen]
    · have listed : shutdowns c.toSocks5 side how otherHow =
          [.shutdown (c.fdOf side) how] ++ [.shutdown (c.fdOf side.other) otherHow] := by
        rw [shutdowns, if_pos isOpen]
        rfl
      obtain ⟨client', orig', fields'⟩ := setCopy_fields
        (x.log (.shutdown (c.fdOf side.other) otherHow)) side.other
        ⟨c.fdOf side.other, side.other.rb, side.other.wb, otherDrop (I side.other), side.other.other⟩
      refine ⟨client', orig', ?_⟩
      rw [fields', fields, listed, ← List.append_assoc]
      rfl
  · rename_i closed
    obtain rfl := Except.ok.inj h
    refine ⟨Function.update I side (drop (I side)), shape1, Function.update_self .., ?_,
      client, orig, ?_⟩
    · simp [closed, other_ne]
    · have listed : shutdowns c.toSocks5 side how otherHow = [.shutdown (c.fdOf side) how] := by
        rw [shutdowns, if_neg closed]
      rw [listed, fields]
      rfl

theorem copyPtr_some {fd : Int} {c : Conn} {side : Side} (h : copyPtr fd c = some side) :
    fd = c.fdOf side := by
  unfold copyPtr at h
  split at h
  · rename_i hit
    obtain rfl := Option.some.inj h
    exact hit
  · split at h
    · rename_i hit
      obtain rfl := Option.some.inj h
      exact hit
    · cases h

/-- What one relay event leaves of the record, apart from the buffers. -/
structure Relayed (side : Side) (c c' : Conn) (I' : Side → FdInterest) (ret : Nat) : Prop where
  shape : c'.Copying I'
  same : c.Same c'
  tuned : c.sel.Retuned [c.fdOf side, c.fdOf side.other] c'.sel
  watched : c.clientFd ≠ c.originFd → c'.Watched I'
  ret : ret = if I' side = opNoop then SocksV5State.done.num else SocksV5State.copy.num

theorem relayed_fdOf {side : Side} {c d : Conn} {I : Side → FdInterest} {ret : Nat}
    (relayed : Relayed side c d I ret) : d.fdOf = c.fdOf := by
  funext x
  cases x
  · exact relayed.same.clientFd
  · exact relayed.same.originFd

/-- The end of a relay event, seen from the record before its last steps. -/
theorem relayed_of_finish {side : Side} {c d c' : Conn} {I' : Side → FdInterest} {ret : Nat}
    (shape : d.Copying I') (same : c.Same d) (sel : d.sel = c.sel)
    (h : copyFinish side d = .ok (ret, c')) :
    Relayed side c c' I' ret ∧ c'.buffer = d.buffer ∧ c'.calls = d.calls := by
  obtain ⟨s, m, rfl, hret, tuned, watched⟩ := copyFinish_ok shape h
  have fds : d.fdOf = c.fdOf := by
    funext x
    cases x
    · exact same.clientFd
    · exact same.originFd
  refine ⟨⟨shape, same.trans ⟨rfl, rfl, rfl, rfl, rfl, rfl, rfl, rfl⟩, ?_, fun distinct => ?_, hret⟩,
    rfl, rfl⟩
  · rw [sel, fds] at tuned
    exact tuned
  · exact watched (by rw [same.clientFd, same.originFd]; exact distinct)

section
variable {o : Outcome} {fd : Int} {c c' : Conn} {I : Side → FdInterest} {ret : Nat}

/-- A direction ends after the call `call`. -/
theorem copyEnds_ok {side : Side} {how otherHow : How} {drop otherDrop : FdInterest → FdInterest}
    {call : Call} (shape : c.Copying I)
    (h : (copyClose side ⟨c.fdOf side, side.rb, side.wb, I side, side.other⟩ how otherHow drop
      otherDrop (c.log call) >>= fun c => copyFinish side c) = .ok (ret, c')) :
    ∃ I', Relayed side c c' I' ret ∧ I' side = drop (I side) ∧
      I' side.other = (if c.fdOf side.other ≠ -1 then otherDrop (I side.other)
        else I side.other) ∧
      c'.buffer = c.buffer ∧ c'.calls = c.calls ++ call :: shutdowns c.toSocks5 side how otherHow := by
  obtain ⟨d, closed, h⟩ := bind_eq_ok.mp h
  obtain ⟨I', shape', own, other, client, orig, rfl⟩ :=
    copyClose_ok (c := c.log call) (fun s => shape s) closed
  obtain ⟨relayed, buffers, calls⟩ := relayed_of_finish (c := c) shape'
    ⟨rfl, rfl, rfl, rfl, rfl, rfl, rfl, rfl⟩ rfl h
  refine ⟨I', relayed, own, other, buffers, ?_⟩
  rw [calls]
  exact List.append_assoc _ _ _

/-- Bytes move through the buffer `r` in the call `call`; the interests stay. -/
theorem copyMoves_ok {side : Side} {r : BufferRef} {b : Buffer} {call : Call} {heap : Heap}
    {dissector : DissecParser} {metrics : Metrics} (shape : c.Copying I)
    (h : copyFinish side (({ c.log call with
      heap := heap, dissecParser := dissector, metrics := metrics } : Conn).setBuffer r b) =
        .ok (ret, c')) :
    Relayed side c c' I ret ∧ c'.buffer r = b ∧ (∀ r', r' ≠ r → c'.buffer r' = c.buffer r') ∧
      c'.calls = c.calls ++ [call] := by
  have shape' := copying_setBuffer (c := { c.log call with
    heap := heap, dissecParser := dissector, metrics := metrics }) (I := I) (fun s => shape s) r b
  obtain ⟨relayed, buffers, calls⟩ := relayed_of_finish (c := c) shape'
    (by cases r <;> exact ⟨rfl, rfl, rfl, rfl, rfl, rfl, rfl, rfl⟩) (by cases r <;> rfl) h
  refine ⟨relayed, by simp [buffers], fun r' ne => ?_, ?_⟩
  · rw [buffers, buffer_setBuffer_ne _ _ ne]
    cases r' <;> rfl
  · rw [calls]
    cases r <;> rfl

/-- The two things `copy_read` does: bytes join the buffer, or the direction ends. -/
theorem copyRead_ok (shape : c.Copying I) (h : copyRead o fd c = .ok (ret, c')) :
    ∃ side I', copyPtr fd c = some side ∧ Relayed side c c' I' ret ∧
      ((∃ bytes, bytes ≠ [] ∧ recvBytes o (bufferWritePtr (c.buffer side.rb)) = some bytes ∧
          I' = I ∧ c'.buffer side.rb = bufferFill (c.buffer side.rb) bytes ∧
          c'.buffer side.wb = c.buffer side.wb ∧ c'.calls = c.calls ++ [.recv fd (some bytes)]) ∨
        (∃ got, recvBytes o (bufferWritePtr (c.buffer side.rb)) = got ∧
          (got = none ∨ got = some []) ∧ I' side = dropRead (I side) ∧
          I' side.other = (if c.fdOf side.other ≠ -1 then dropWrite (I side.other)
            else I side.other) ∧
          c'.buffer = c.buffer ∧
          c'.calls = c.calls ++ .recv fd got :: shutdowns c.toSocks5 side .shutRd .shutWr)) := by
  simp only [copyRead] at h
  split at h
  · cases h
  · rename_i side found
    obtain rfl := copyPtr_some found
    simp only [shape side, ok_bind, ne_eq, not_true_eq_false, if_false] at h
    split at h
    · rename_i got
      obtain ⟨I', relayed, own, other, buffers, calls⟩ := copyEnds_ok shape h
      rw [got] at calls
      exact ⟨side, I', found, relayed, Or.inr ⟨none, got, Or.inl rfl, own, other, buffers, calls⟩⟩
    · rename_i got
      obtain ⟨I', relayed, own, other, buffers, calls⟩ := copyEnds_ok shape h
      rw [got] at calls
      exact ⟨side, I', found, relayed,
        Or.inr ⟨some [], got, Or.inr rfl, own, other, buffers, calls⟩⟩
    · rename_i byte bytes got
      have moved : ∃ s : Heap × DissecParser, copyFinish side (({ c.log (.recv (c.fdOf side) (some (byte :: bytes))) with
          heap := s.1, dissecParser := s.2, metrics := countRead c.metrics (bytes.length + 1) } :
            Conn).setBuffer side.rb (bufferFill (c.buffer side.rb) (byte :: bytes))) =
          .ok (ret, c') := by
        rw [got] at h
        split at h
        · obtain ⟨s, _, h⟩ := bind_eq_ok.mp h
          exact ⟨s, h⟩
        · exact ⟨(c.heap, c.dissecParser), h⟩
      obtain ⟨s, moved⟩ := moved
      obtain ⟨relayed, own, others, calls⟩ := copyMoves_ok shape moved
      exact ⟨side, I, found, relayed, Or.inl ⟨byte :: bytes, by simp, got, rfl, own,
        others _ (rb_ne_wb side).symm, calls⟩⟩

/-- The two things `copy_write` does: bytes leave the buffer, or the direction ends. -/
theorem copyWrite_ok (shape : c.Copying I) (h : copyWrite o fd c = .ok (ret, c')) :
    ∃ side I', copyPtr fd c = some side ∧ Relayed side c c' I' ret ∧
      ((∃ bytes, sentBytes o (c.buffer side.wb) = some bytes ∧ I' = I ∧
          c'.buffer side.wb = bufferTake (c.buffer side.wb) bytes.length ∧
          c'.buffer side.rb = c.buffer side.rb ∧ c'.calls = c.calls ++ [.send fd (some bytes)]) ∨
        (sentBytes o (c.buffer side.wb) = none ∧ I' side = dropWrite (I side) ∧
          I' side.other = (if c.fdOf side.other ≠ -1 then dropRead (I side.other)
            else I side.other) ∧
          c'.buffer = c.buffer ∧
          c'.calls = c.calls ++ .send fd none :: shutdowns c.toSocks5 side .shutWr .shutRd)) := by
  simp only [copyWrite] at h
  split at h
  · cases h
  · rename_i side found
    obtain rfl := copyPtr_some found
    simp only [shape side, ok_bind, ne_eq, not_true_eq_false, if_false] at h
    split at h
    · rename_i got
      obtain ⟨I', relayed, own, other, buffers, calls⟩ := copyEnds_ok shape h
      rw [got] at calls
      exact ⟨side, I', found, relayed, Or.inr ⟨got, own, other, buffers, calls⟩⟩
    · rename_i bytes got
      rw [got] at h
      have moved : copyFinish side (({ c.log (.send (c.fdOf side) (some bytes)) with
          heap := c.heap, dissecParser := c.dissecParser,
          metrics := countWrite c.metrics bytes.length } : Conn).setBuffer side.wb
            (bufferTake (c.buffer side.wb) bytes.length)) = .ok (ret, c') := h
      obtain ⟨relayed, own, others, calls⟩ := copyMoves_ok shape moved
      exact ⟨side, I, found, relayed, Or.inl ⟨bytes, got, rfl, own, others _ (rb_ne_wb side),
        calls⟩⟩

end

/-! ## What the relay does not use -/

/-- The addresses of the request and the authentication method. -/
def Conn.Settled (c c' : Conn) : Prop :=
  c'.originResolutionCurrent = c.originResolutionCurrent ∧ c'.authMethod = c.authMethod

section
variable {o : Outcome} {fd : Int} {c c' : Conn} {side : Side} {ret : Nat}

theorem copyComputeInterests_settled {d : CopySt} (h : copyComputeInterests d c = .ok c') :
    c.Settled c' := by
  obtain ⟨sel, rfl, -⟩ := copyComputeInterests_ok h
  exact ⟨rfl, rfl⟩

theorem copyInit_settled (h : copyInit fd c = .ok c') : c.Settled c' := by
  simp only [copyInit] at h
  obtain ⟨d, first, h⟩ := bind_eq_ok.mp h
  obtain ⟨left, method⟩ := copyComputeInterests_settled first
  obtain ⟨left', method'⟩ := copyComputeInterests_settled h
  exact ⟨left'.trans left, method'.trans method⟩

theorem copyFinish_settled (h : copyFinish side c = .ok (ret, c')) : c.Settled c' := by
  simp only [copyFinish] at h
  obtain ⟨d, -, h⟩ := bind_eq_ok.mp h
  obtain ⟨c1, first, h⟩ := bind_eq_ok.mp h
  obtain ⟨other, -, h⟩ := bind_eq_ok.mp h
  obtain ⟨c2, second, h⟩ := bind_eq_ok.mp h
  obtain ⟨left, method⟩ := copyComputeInterests_settled first
  obtain ⟨left', method'⟩ := copyComputeInterests_settled second
  split at h
  all_goals
    obtain ⟨-, rfl⟩ := Prod.mk.inj (Except.ok.inj h)
    exact ⟨left'.trans left, method'.trans method⟩

theorem setCopy_settled (c : Conn) (side : Side) (d : CopySt) : c.Settled (c.setCopy side d) := by
  cases side <;> exact ⟨rfl, rfl⟩

theorem copyClose_settled {d : CopySt} {how otherHow : How} {drop otherDrop : FdInterest → FdInterest}
    (h : copyClose side d how otherHow drop otherDrop c = .ok c') : c.Settled c' := by
  simp only [copyClose] at h
  obtain ⟨other, -, h⟩ := bind_eq_ok.mp h
  obtain ⟨left, method⟩ := setCopy_settled (c.log (.shutdown d.fd how)) side
    { d with interest := drop d.interest }
  split at h
  · obtain rfl := Except.ok.inj h
    obtain ⟨left', method'⟩ := setCopy_settled (((c.log (.shutdown d.fd how)).setCopy side
      { d with interest := drop d.interest }).log (.shutdown other.fd otherHow)) d.otherCopy
      { other with interest := otherDrop other.interest }
    exact ⟨left'.trans left, method'.trans method⟩
  · obtain rfl := Except.ok.inj h
    exact ⟨left, method⟩

theorem setBuffer_settled (c : Conn) (r : BufferRef) (b : Buffer) : c.Settled (c.setBuffer r b) := by
  cases r <;> exact ⟨rfl, rfl⟩

theorem copyRead_settled (h : copyRead o fd c = .ok (ret, c')) : c.Settled c' := by
  have ends : ∀ {d side got}, (copyClose side d .shutRd .shutWr dropRead dropWrite
      (c.log (.recv fd got)) >>= fun c => copyFinish side c) = .ok (ret, c') → c.Settled c' := by
    intro d side got h
    obtain ⟨e, closed, h⟩ := bind_eq_ok.mp h
    obtain ⟨left, method⟩ := copyClose_settled closed
    obtain ⟨left', method'⟩ := copyFinish_settled h
    exact ⟨left'.trans left, method'.trans method⟩
  simp only [copyRead] at h
  split at h
  · cases h
  · obtain ⟨d, -, h⟩ := bind_eq_ok.mp h
    split at h
    · cases h
    · split at h
      · exact ends h
      · exact ends h
      · split at h
        all_goals
          obtain ⟨s, -, h⟩ := bind_eq_ok.mp h
          obtain ⟨left, method⟩ := copyFinish_settled h
          obtain ⟨left', method'⟩ := setBuffer_settled _ d.rb _
          exact ⟨left.trans left', method.trans method'⟩

theorem copyWrite_settled (h : copyWrite o fd c = .ok (ret, c')) : c.Settled c' := by
  simp only [copyWrite] at h
  split at h
  · cases h
  · obtain ⟨d, -, h⟩ := bind_eq_ok.mp h
    split at h
    · cases h
    · split at h
      · obtain ⟨e, closed, h⟩ := bind_eq_ok.mp h
        obtain ⟨left, method⟩ := copyClose_settled closed
        obtain ⟨left', method'⟩ := copyFinish_settled h
        exact ⟨left'.trans left, method'.trans method⟩
      · obtain ⟨left, method⟩ := copyFinish_settled h
        obtain ⟨left', method'⟩ := setBuffer_settled _ d.wb _
        exact ⟨left.trans left', method.trans method'⟩

end

end SocksProxy
