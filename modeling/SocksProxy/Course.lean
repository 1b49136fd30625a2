import SocksProxy.Lib.Run
import SocksProxy.Connecting

/-!
# The course of a connection

What a SOCKS connection goes through, without its bytes: the phase it is in, what
its origin socket is to it, the status of its last attempt, and the replies and
the attempts made so far. The attempts and replies are never taken back.
-/

namespace SocksProxy

inductive Phase
  | talking
  | reading
  | broken
  | resolving
  | pending
  | immediate
  | failing
  | writing
  | copying
  | done
  | failed
  deriving DecidableEq, Repr

/-- A `connect`: its descriptor, its address and its answer. -/
structure Attempt where
  fd : Int
  addr : List UInt8
  result : Option Errno
  deriving DecidableEq, Repr

structure Course where
  phase : Phase
  /-- What the client was sent before its request was answered. -/
  base : List UInt8
  /-- The number `socket` gave, or -1. -/
  socket : Int
  /-- `origin_fd` is the socket and not -1. -/
  isOpen : Bool
  /-- The selector has an item for the socket. -/
  registered : Bool
  /-- References that were counted for no item. -/
  leaked : Nat
  status : SocksReplyStatus
  /-- The replies marshalled so far, those that found no room included. -/
  said : List SocksReplyStatus
  /-- The addresses from the current one on. -/
  left : List AddrInfo
  tried : List Attempt
  /-- The origin's connection was found established. -/
  established : Bool

namespace Course

def fresh (phase : Phase) (base : List UInt8) : Course :=
  ⟨phase, base, -1, false, false, 0, .succeeded, [], [], [], false⟩

def originFd (k : Course) : Int := if k.isOpen then k.socket else -1

def say (k : Course) (status : SocksReplyStatus) : Course := { k with said := k.said ++ [status] }

def fail (k : Course) (status : SocksReplyStatus) : Course :=
  { k.say status with phase := .failing, status := status }

def answer (k : Course) (status : SocksReplyStatus) : Course :=
  { k.say status with phase := .writing, status := status }

/-- `connection`: what `connect` answered, and whether the selector took the socket. -/
def attempt (k : Course) (addr : List UInt8) (result : Option Errno) (taken : Bool) : Course :=
  let k := { k with tried := k.tried ++ [Attempt.mk k.originFd addr result] }
  match result with
  | some .einprogress =>
    if taken then { k with phase := .pending, registered := true }
    else { k.fail .generalSocksServerFailure with isOpen := false }
  | some e => k.fail (errnoToSocks e)
  | none =>
    if taken then { k with phase := .immediate, registered := true }
    else { k.fail .generalSocksServerFailure with leaked := k.leaked + 1 }

/-- The socket of `connecting_init`. -/
def opened (k : Course) (n : Nat) : Course := { k with socket := n, isOpen := true }

/-- The end of `connecting_write` when no address is left: the socket is given up. -/
def giveUp (k : Course) : Course :=
  { k.answer k.status with registered := k.registered && !k.isOpen, isOpen := false }

end Course

/-- What happens to a connection. `first` and `retry` are attempts; `retryAfter`
is one that follows an error of the attempt before, found in `SO_ERROR`. -/
inductive Act
  | idle
  | request (base : List UInt8)
  | breakDown
  | refuse (status : SocksReplyStatus)
  | resolve
  | unresolved
  | noSocket
  | noNio
  | first (left : List AddrInfo) (addr : List UInt8) (result : Option Errno) (taken : Bool)
  | retry (addr : List UInt8) (result : Option Errno) (taken : Bool)
  | retryAfter (error : Errno) (addr : List UInt8) (result : Option Errno) (taken : Bool)
  | soError (answer : Option (Option Errno))
  | giveUp
  | copy
  | close
  | fail

/-- The address tried for a list is that of its head, if its family is known. -/
def Heads (left : List AddrInfo) (addr : List UInt8) : Prop :=
  ∀ a rest, left = a :: rest → a.family = afInet ∨ a.family = afInet6 → addr = a.addr

namespace Course

inductive Step (k : Course) : Act → Course → Prop
  | idle : Step k .idle k
  | request (base : List UInt8) : k.phase = .talking → Step k (.request base) (fresh .reading base)
  | breakDown (base : List UInt8) : k.phase = .talking → Step k .breakDown (fresh .broken base)
  | refuse (status : SocksReplyStatus) : k.phase = .reading → status ≠ .succeeded →
      Step k (.refuse status) { k.say status with phase := .writing }
  | resolve : k.phase = .reading → Step k .resolve { k with phase := .resolving }
  | unresolved : k.phase = .resolving → Step k .unresolved (k.answer .generalSocksServerFailure)
  | noSocket (left : List AddrInfo) : k.phase = .reading ∨ k.phase = .resolving →
      Step k .noSocket ({ k with left := left }.fail .generalSocksServerFailure)
  | noNio (left : List AddrInfo) (n : Nat) : k.phase = .reading ∨ k.phase = .resolving →
      Step k .noNio (({ k with left := left }.opened n).fail .generalSocksServerFailure)
  | first {left : List AddrInfo} {addr : List UInt8} (n : Nat) (result : Option Errno) (taken : Bool) :
      k.phase = .reading ∨ k.phase = .resolving → Heads left addr →
      Step k (.first left addr result taken)
        (({ k with left := left }.opened n).attempt addr result taken)
  | retry {a next : AddrInfo} {rest : List AddrInfo} {addr : List UInt8} (result : Option Errno)
      (taken : Bool) : k.phase = .pending ∨ k.phase = .failing → k.status ≠ .succeeded →
      k.left = a :: next :: rest → Heads (next :: rest) addr →
      Step k (.retry addr result taken) ({ k with left := next :: rest }.attempt addr result taken)
  | retryAfter {a next : AddrInfo} {rest : List AddrInfo} {addr : List UInt8} (error : Errno)
      (result : Option Errno) (taken : Bool) : k.phase = .pending → k.status = .succeeded →
      k.left = a :: next :: rest → Heads (next :: rest) addr →
      Step k (.retryAfter error addr result taken)
        ({ k with left := next :: rest, status := errnoToSocks error }.attempt addr result taken)
  | giveUp : k.phase = .pending ∨ k.phase = .failing → k.status ≠ .succeeded → k.left.length < 2 →
      Step k .giveUp k.giveUp
  | unanswered : k.phase = .pending → k.status = .succeeded →
      Step k (.soError none) (k.answer .generalSocksServerFailure)
  | established : k.phase = .pending → k.status = .succeeded →
      Step k (.soError (some none)) { k.answer .succeeded with established := true }
  | refused (error : Errno) : k.phase = .pending → k.status = .succeeded → k.left.length < 2 →
      Step k (.soError (some (some error))) (k.answer (errnoToSocks error))
  | copy : k.phase = .writing → k.status = .succeeded → Step k .copy { k with phase := .copying }
  | close : k.phase = .talking ∨ k.phase = .copying ∨ k.phase = .writing ∧ k.status ≠ .succeeded →
      Step k .close { k with phase := .done }
  | fail : k.phase = .talking ∨ k.phase = .reading ∨ k.phase = .writing →
      Step k .fail { k with phase := .failed }

end Course

theorem errnoToSocks_ne (e : Errno) : errnoToSocks e ≠ .succeeded := by
  cases e <;> simp [errnoToSocks]

/-- An attempt waits, was answered at once, or failed. -/
theorem attempt_phase (k : Course) (addr : List UInt8) (result : Option Errno) (taken : Bool) :
    (k.attempt addr result taken).phase = .pending ∨ (k.attempt addr result taken).phase = .immediate ∨
      (k.attempt addr result taken).phase = .failing := by
  cases taken with
  | false =>
    rcases result with - | ⟨- | - | - | - | - | - | -⟩
    all_goals exact Or.inr (Or.inr rfl)
  | true =>
    rcases result with - | ⟨- | - | - | - | - | - | -⟩
    · exact Or.inr (Or.inl rfl)
    · exact Or.inl rfl
    all_goals exact Or.inr (Or.inr rfl)

end SocksProxy
