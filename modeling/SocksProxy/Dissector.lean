import SocksProxy.Users

/-!
# dissec_parser.c: the POP3 password dissector

`printed` is not in the source: it lists the credentials that went to the
standard output, each with the name pointer of the connection's user.
-/

namespace SocksProxy

open Lib

def userReservedPop3Word : List UInt8 := [0x75, 0x73, 0x65, 0x72, 0x20]

def passReservedPop3Word : List UInt8 :=
  [0x2B, 0x4F, 0x4B, 0x0D, 0x0A, 0x70, 0x61, 0x73, 0x73, 0x20]

def bufferSize : Nat := 5

def userL : Nat := 5

def passL : Nat := 10

inductive DissecParserState
  | userWordSearch
  | userRead
  | passWordSearch
  | passRead
  deriving DecidableEq, Repr

structure PopLogin where
  user : Ptr
  username : List UInt8
  password : List UInt8
  deriving DecidableEq, Repr

structure DissecParser where
  current : DissecParserState
  currentIndex : Nat
  last : Bool
  username : Ptr
  password : Ptr
  printed : List PopLogin
  deriving DecidableEq, Repr

def dissecParserInit (p : DissecParser) : DissecParser :=
  { p with currentIndex := 0, current := .userWordSearch, last := false }

def wordAt (word : List UInt8) (i : Nat) : Result UInt8 :=
  match word[i]? with
  | some b => .ok b
  | none => .error .outOfBounds

def checkSize (heap : Heap) (buffer : Ptr) (size : Nat) : Result (Ptr × Heap) :=
  if size % bufferSize = 0 then
    if size = 0 then
      let (a, heap) := heap.malloc (size + bufferSize)
      .ok (some a, heap)
    else do
      let (a, heap) ← heap.realloc buffer (size + bufferSize)
      .ok (some a, heap)
  else .ok (buffer, heap)

/-- The index is zero before it is tested, so this reset frees nothing. -/
def userReadReset (p : DissecParser) (b : UInt8) : Result DissecParser := do
  let first ← wordAt userReservedPop3Word 0
  .ok { p with
    currentIndex := if first = b then 1 else 0
    last := false
    current := .userWordSearch }

def userReadHandler (heap : Heap) (p : DissecParser) (b : UInt8) : Result (Heap × DissecParser) := do
  if 255 ≤ p.currentIndex then .ok (heap, ← userReadReset p b)
  else if p.last && decide (b ≠ 0x0A) then .ok (heap, ← userReadReset p b)
  else if b = 0x0D then .ok (heap, { p with last := true, current := .userRead })
  else if b = 0x0A then
    let (username, heap) ← checkSize heap p.username p.currentIndex
    let heap ← heap.store username p.currentIndex 0
    .ok (heap, { p with
      username := username, currentIndex := 0, last := false, current := .passWordSearch })
  else if b ≤ 127 then
    let (username, heap) ← checkSize heap p.username p.currentIndex
    let heap ← heap.store username p.currentIndex b
    .ok (heap, { p with
      username := username, currentIndex := p.currentIndex + 1, current := .userRead })
  else .ok (heap, ← userReadReset p b)

def passReadReset (heap : Heap) (p : DissecParser) (b : UInt8) : Result (Heap × DissecParser) := do
  let heap ← if p.currentIndex ≠ 0 then heap.free p.password else .ok heap
  let heap ← heap.free p.username
  let first ← wordAt userReservedPop3Word 0
  .ok (heap, { p with
    currentIndex := if first = b then 1 else 0
    last := false
    current := .userWordSearch })

/-- `user` is `users[*p->userIndex].name`. -/
def passReadHandler (user : Ptr) (heap : Heap) (p : DissecParser) (b : UInt8) :
    Result (Heap × DissecParser) := do
  if 255 ≤ p.currentIndex then passReadReset heap p b
  else if p.last && decide (b ≠ 0x0A) then passReadReset heap p b
  else if b = 0x0D then .ok (heap, { p with last := true, current := .passRead })
  else if b = 0x0A then
    let (password, heap) ← checkSize heap p.password p.currentIndex
    let heap ← heap.store password p.currentIndex 0
    let (_, nameBytes) ← heap.load p.username
    let (_, passBytes) ← heap.load password
    let username ← cString nameBytes
    let pass ← cString passBytes
    passReadReset heap { p with
      password := password, printed := p.printed ++ [⟨user, username, pass⟩] } b
  else if b ≤ 127 then
    let (password, heap) ← checkSize heap p.password p.currentIndex
    let heap ← heap.store password p.currentIndex b
    .ok (heap, { p with
      password := password, currentIndex := p.currentIndex + 1, current := .passRead })
  -- the reset of the user part: neither block is freed
  else .ok (heap, ← userReadReset p b)

def passWordSearchHandler (heap : Heap) (p : DissecParser) (b : UInt8) :
    Result (Heap × DissecParser) := do
  let expected ← wordAt passReservedPop3Word p.currentIndex
  if expected = b then
    if p.currentIndex + 1 = passL then .ok (heap, { p with currentIndex := 0, current := .passRead })
    else .ok (heap, { p with currentIndex := p.currentIndex + 1, current := .passWordSearch })
  else
    let heap ← heap.free p.username
    let first ← wordAt userReservedPop3Word 0
    .ok (heap, { p with
      currentIndex := if first = b then 1 else 0
      last := false
      current := .userWordSearch })

def userWordSearchHandler (p : DissecParser) (b : UInt8) : Result DissecParser := do
  let expected ← wordAt userReservedPop3Word p.currentIndex
  if expected = b then
    if p.currentIndex + 1 = userL then .ok { p with currentIndex := 0, current := .userRead }
    else .ok { p with currentIndex := p.currentIndex + 1, current := .userWordSearch }
  else
    let first ← wordAt userReservedPop3Word 0
    .ok { p with currentIndex := if first = b then 1 else 0, current := .userWordSearch }

def dissecParserFeed (user : Ptr) (s : Heap × DissecParser) (b : UInt8) :
    Result (Heap × DissecParser) :=
  let (heap, p) := s
  match p.current with
  | .userWordSearch => userWordSearchHandler p b >>= fun p => .ok (heap, p)
  | .userRead => userReadHandler heap p b
  | .passWordSearch => passWordSearchHandler heap p b
  | .passRead => passReadHandler user heap p b

def dissecConsume (user : Ptr) : List UInt8 → Heap × DissecParser → Result (Heap × DissecParser)
  | [], s => .ok s
  | b :: bytes, s => dissecParserFeed user s b >>= dissecConsume user bytes

end SocksProxy
