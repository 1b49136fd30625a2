import SocksProxy.Buffer

/-!
# hello.c: the parser of the method list

`data` is the byte `parser->data` points to, the selected method of the
session; the callback writes there.
-/

namespace SocksProxy

open Lib

inductive HelloState
  | version
  | nmethods
  | methods
  | done
  | errorUnsupportedVersion
  deriving DecidableEq, Repr

structure HelloParser where
  version : UInt8
  method : UInt8
  state : HelloState
  remaining : UInt8
  deriving DecidableEq, Repr

def helloParserInit (p : HelloParser) : HelloParser := { p with state := .version, remaining := 0 }

def onHelloMethod (p : HelloParser) (data method : UInt8) : UInt8 :=
  if p.method = method then method else data

def helloParserFeed (p : HelloParser × UInt8) (b : UInt8) : HelloParser × UInt8 :=
  let (p, data) := p
  match p.state with
  | .version =>
    if b = p.version then ({ p with state := .nmethods }, data)
    else ({ p with state := .errorUnsupportedVersion }, data)
  | .nmethods =>
    ({ p with remaining := b, state := if b ≤ 0 then .done else .methods }, data)
  | .methods =>
    let remaining := p.remaining - 1
    ({ p with remaining := remaining, state := if remaining ≤ 0 then .done else .methods },
      onHelloMethod p data b)
  | .done | .errorUnsupportedVersion => (p, data)

def helloIsDone (state : HelloState) : Bool :=
  match state with
  | .errorUnsupportedVersion | .done => true
  | _ => false

/-- Returns the buffer, the parser with the selected method, and `*error`,
which only a byte that was fed can set. -/
def helloConsume (b : Buffer) (p : HelloParser) (data : UInt8) :
    Result (Buffer × (HelloParser × UInt8) × Bool) := do
  let (rest, p) ← drain (fun p byte => .ok (helloParserFeed p byte))
    (fun p => helloIsDone p.1.state) (b.write - b.read) b (p, data)
  .ok (rest, p, bufferCanRead b && decide (p.1.state = .errorUnsupportedVersion))

/-- Consuming is feeding the unread bytes until the parser is done. -/
theorem helloConsume_ok {b b' : Buffer} {p p' : HelloParser} {data data' : UInt8} {error : Bool}
    (h : helloConsume b p data = .ok (b', (p', data'), error)) :
    feedUntil (fun p byte => .ok (helloParserFeed p byte)) (fun p => helloIsDone p.1.state) (p, data)
        (bufferReadPtr b) = .ok ((p', data'), bufferReadPtr b') ∧
      b'.limit = b.limit ∧ (b.Rewound → b'.Rewound) ∧
      error = (bufferCanRead b && decide (p'.state = .errorUnsupportedVersion)) := by
  simp only [helloConsume] at h
  obtain ⟨⟨rest, q⟩, drained, h⟩ := bind_eq_ok.mp h
  simp only [Except.ok.injEq, Prod.mk.injEq] at h
  obtain ⟨rfl, rfl, rfl⟩ := h
  obtain ⟨fed, limit, rewound⟩ := drain_ok (Nat.le_of_eq (bufferReadPtr_length b)) drained
  exact ⟨fed, limit, rewound, rfl⟩

end SocksProxy
