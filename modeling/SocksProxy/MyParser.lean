import SocksProxy.Buffer
import SocksProxy.Lib.Heap

/-!
# myParser.c: the generic parser

It interprets a list of substates. `result` is the block a substate owns, or
NULL. `overread` is not in the source: it records that `p->states` was indexed
at or past `p->size`.
-/

namespace SocksProxy

open Lib

inductive ParserState
  | singleRead
  | readN
  | longRead
  | doneRead
  | errorRead
  deriving DecidableEq, Repr

/-- `none` accepts the field; `some e` rejects it and leaves `*error = e`. -/
abbrev Check := List UInt8 → UInt8 → Option UInt8

structure ParserSubstate where
  state : ParserState
  result : Option (List UInt8)
  checkFunction : Option Check
  size : UInt8
  remaining : UInt8

structure Parser where
  index : Nat
  size : Nat
  current : ParserState
  states : List ParserSubstate
  error : UInt8
  overread : Bool

def parserInit (p : Parser) : Result Parser :=
  match p.states.head? with
  | some s => .ok { p with current := s.state, index := 0, error := 0 }
  | none => .error .outOfBounds

/-- `ptr[i] = b`. -/
def storeAt (ptr : Option (List UInt8)) (i : Nat) (b : UInt8) : Result (List UInt8) :=
  match ptr with
  | none => .error .nullPointer
  | some block => if i < block.length then .ok (block.set i b) else .error .outOfBounds

/-- `malloc(n)`; the contents of a fresh block are not relied on. -/
def mallocBytes (n : Nat) : List UInt8 := List.replicate n 0

def Parser.setSubstate (p : Parser) (i : Nat) (s : ParserSubstate) : Parser :=
  { p with states := p.states.set i s }

/-- The substate at `i` becomes current, or the parser is done at the end of the table. -/
def Parser.moveTo (p : Parser) (i : Nat) : Parser :=
  if p.size ≤ i then { p with index := i, current := .doneRead }
  else
    match p.states[i]? with
    | some s => { p with index := i, current := s.state }
    | none => { p with index := i, overread := true }

/-- What a check function says about a field of `size` bytes. -/
def runCheck (f : Option Check) (ptr : List UInt8) (size : UInt8) : Option UInt8 :=
  match f with
  | some check => check ptr size
  | none => none

def parserFeed (p : Parser) (b : UInt8) : Result Parser := do
  -- `substate = p->states[p->index]` is loaded before the switch looks at the state
  let p := { p with overread := p.overread || decide (p.size ≤ p.index) }
  match p.current with
  | .singleRead =>
    match p.states[p.index]? with
    | none => .error .outOfBounds
    | some substate =>
      let result ← storeAt substate.result 0 b
      let substate := { substate with result := some result }
      match runCheck substate.checkFunction result 1 with
      | none =>
        -- the next substate is loaded before the index is compared with the size
        let p := p.setSubstate p.index substate
        .ok { p.moveTo (p.index + 1) with
          overread := p.overread || decide (p.size ≤ p.index + 1) }
      | some e =>
        .ok { p.setSubstate p.index { substate with state := .errorRead } with error := e }
  | .readN =>
    let i := p.index + 1
    if p.size ≤ i then .ok { p with index := i, current := .errorRead }
    else
      match p.states[i]? with
      | none => .error .outOfBounds
      | some substate =>
        let substate := { substate with remaining := b, size := b }
        if b ≤ 0 then
          -- an empty field: its substate is skipped with an empty string
          .ok ((p.setSubstate i { substate with result := some [0] }).moveTo (i + 1))
        else
          let substate := { substate with result := some (mallocBytes (b.toNat + 1)) }
          .ok { p.setSubstate i substate with index := i, current := substate.state }
  | .longRead =>
    match p.states[p.index]? with
    | none => .error .outOfBounds
    | some substate =>
      let at' := (substate.size.toNat : Int) - substate.remaining.toNat
      if at' < 0 then .error .outOfBounds
      else
        let result ← storeAt substate.result at'.toNat b
        let remaining := substate.remaining - 1
        let substate := { substate with result := some result, remaining := remaining }
        if remaining ≤ 0 then
          let result ← storeAt (some result) substate.size.toNat 0
          let substate := { substate with result := some result }
          let p := p.setSubstate p.index substate
          match runCheck substate.checkFunction result substate.size with
          | some e => .ok { p with error := e, current := .errorRead }
          | none => .ok (p.moveTo (p.index + 1))
        else .ok (p.setSubstate p.index substate)
  | .doneRead | .errorRead => .ok p

def isDone (state : ParserState) : Bool :=
  match state with
  | .errorRead | .doneRead => true
  | _ => false

/-- Returns the buffer, the parser, the state of the last byte (that of the
first substate when nothing was fed) and `*error`. -/
def consume (b : Buffer) (p : Parser) : Result (Buffer × Parser × ParserState × Bool) :=
  match p.states.head? with
  | none => .error .outOfBounds
  | some first => do
    let (rest, p) ← drain parserFeed (fun p => isDone p.current) (b.write - b.read) b p
    let st := if bufferCanRead b then p.current else first.state
    .ok (rest, p, st, bufferCanRead b && decide (p.current = .errorRead))

/-- What the allocations of a parser left: the parser, a parser without the
array of substates, or an array whose first `filled` slots were assigned. -/
inductive ParserCell
  | ready (p : Parser)
  | noStates
  | unfinished (filled size : Nat)

/-- The mallocs of the substates, from slot `i` and the `k`-th malloc on: the
slot whose allocation failed is the last one assigned. -/
def allocSubstates (malloc : Nat → Bool) : Nat → Nat → List ParserSubstate → Option Nat
  | _, _, [] => none
  | i, k, s :: rest =>
    if malloc k then
      if s.result.isSome then
        if malloc (k + 1) then allocSubstates malloc (i + 1) (k + 2) rest else some (i + 1)
      else allocSubstates malloc (i + 1) (k + 1) rest
    else some (i + 1)

/-- The allocations that every parser of the server starts with, then `parser_init`. -/
def allocParser (malloc : Nat → Bool) (states : List ParserSubstate) : Result (Owned ParserCell) :=
  if malloc 0 then
    if malloc 1 then
      match allocSubstates malloc 0 2 states with
      | some filled => .ok (.live (.unfinished filled states.length))
      | none => do
        let p ← parserInit ⟨0, states.length, .singleRead, states, 0, false⟩
        .ok (.live (.ready p))
    else .ok (.live .noStates)
  else .ok .null

def cellReady (p : Owned ParserCell) : Bool :=
  match p with
  | .live (.ready _) => true
  | _ => false

/-- The parser of a stage that reads from it. -/
def cellParser (p : Owned ParserCell) : Result Parser :=
  match p with
  | .live (.ready p) => .ok p
  | .live _ => .error .uninitialised
  | .null => .error .nullPointer
  | .freed => .error .useAfterFree

/-- The close hooks free every assigned slot; a slot that was never assigned is
read uninitialised. -/
def parserClose (p : Owned ParserCell) : Result (Owned ParserCell) :=
  match p with
  | .null => .ok .null
  | .freed => .error .useAfterFree
  | .live (.unfinished filled size) => if filled < size then .error .uninitialised else .ok .freed
  | .live _ => .ok .freed

/-- Consuming is feeding the unread bytes until the parser is done. -/
theorem consume_ok {b b' : Buffer} {p p' : Parser} {st : ParserState} {error : Bool}
    (h : consume b p = .ok (b', p', st, error)) (unread : bufferCanRead b = true) :
    feedUntil parserFeed (fun p => isDone p.current) p (bufferReadPtr b) =
        .ok (p', bufferReadPtr b') ∧
      b'.limit = b.limit ∧ (b.Rewound → b'.Rewound) ∧ st = p'.current ∧
      error = decide (p'.current = .errorRead) := by
  unfold consume at h
  split at h
  · cases h
  · obtain ⟨⟨rest, q⟩, drained, h⟩ := bind_eq_ok.mp h
    simp only [unread, if_true, Bool.true_and, Except.ok.injEq, Prod.mk.injEq] at h
    obtain ⟨rfl, rfl, rfl, rfl⟩ := h
    obtain ⟨fed, limit, rewound⟩ := drain_ok (Nat.le_of_eq (bufferReadPtr_length b)) drained
    exact ⟨fed, limit, rewound, rfl, rfl⟩

/-- The parser that the allocations leave when they all succeed. -/
def parserOf (states : List ParserSubstate) (first : ParserSubstate) : Parser :=
  ⟨0, states.length, first.state, states, 0, false⟩

theorem allocParser_ok {malloc : Nat → Bool} {states : List ParserSubstate} {cell : Owned ParserCell}
    (h : allocParser malloc states = .ok cell) :
    cellReady cell = false ∨
      ∃ first, states.head? = some first ∧ cell = .live (.ready (parserOf states first)) := by
  unfold allocParser at h
  split at h
  · split at h
    · split at h
      · exact Or.inl (by rw [← Except.ok.inj h]; rfl)
      · obtain ⟨p, started, h⟩ := bind_eq_ok.mp h
        simp only [parserInit] at started
        split at started
        · rename_i first found
          exact Or.inr ⟨first, found, by rw [← Except.ok.inj h, ← Except.ok.inj started]; rfl⟩
        · cases started
    · exact Or.inl (by rw [← Except.ok.inj h]; rfl)
  · exact Or.inl (by rw [← Except.ok.inj h]; rfl)

end SocksProxy
