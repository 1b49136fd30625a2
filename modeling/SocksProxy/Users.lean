import SocksProxy.Lib.Heap

/-!
# The users and admins tables

The slots hold pointers to strings of the heap. `users` is served by
`checkCredentials`, `addUser` and `deleteUser`, `admins` only by
`checkMngCredentials`.
-/

namespace SocksProxy

open Lib

structure Users where
  name : Ptr
  pass : Ptr
  deriving DecidableEq, Repr

structure UserTable where
  slots : Nat → Users
  nusers : Nat

def maxUsers : Nat := 255

def UserTable.empty : UserTable := ⟨fun _ => ⟨none, none⟩, 0⟩

/-- A string of the parser: the block its substate owns, or NULL. -/
def deref (s : Option (List UInt8)) : Result (List UInt8) :=
  match s with
  | none => .error .nullPointer
  | some bytes => .ok bytes

/-- `strcmp(s, p) == 0` for a string of the parser and one of the heap. -/
def strcmpHeap (heap : Heap) (s : Option (List UInt8)) (p : Ptr) : Result Bool := do
  let bytes ← deref s
  let (_, stored) ← heap.load p
  strEq bytes stored

/-- The loop of `checkCredentials` and `checkMngCredentials` from slot `i` on,
with `n` slots to go: the first slot that has both strings. -/
def findCredentials (heap : Heap) (t : UserTable) (username password : Option (List UInt8)) :
    Nat → Nat → Result (Option Nat)
  | 0, _ => .ok none
  | n + 1, i => do
    let sameName ← strcmpHeap heap username (t.slots i).name
    if sameName then
      let samePass ← strcmpHeap heap password (t.slots i).pass
      if samePass then .ok (some i) else findCredentials heap t username password n (i + 1)
    else findCredentials heap t username password n (i + 1)

/-- The result byte, and the index that goes to `userIndex` on success. -/
def checkCredentials (heap : Heap) (users : UserTable) (username password : Option (List UInt8)) :
    Result (UInt8 × Option Nat) := do
  match ← findCredentials heap users username password users.nusers 0 with
  | some i => .ok (0x00, some i)
  | none => .ok (0x01, none)

def checkMngCredentials (heap : Heap) (admins : UserTable)
    (username password : Option (List UInt8)) : Result UInt8 := do
  match ← findCredentials heap admins username password admins.nusers 0 with
  | some _ => .ok 0x00
  | none => .ok 0x01

def addUser (heap : Heap) (users : UserTable) (username password : Option (List UInt8)) :
    Result (Heap × UserTable) := do
  if maxUsers ≤ users.nusers then .ok (heap, users)
  else
    let u ← deref username >>= cString
    let p ← deref password >>= cString
    let (newUsername, heap) := heap.strdup u
    let (newPassword, heap) := heap.strdup p
    .ok (heap, {
      slots := Function.update users.slots users.nusers ⟨some newUsername, some newPassword⟩
      nusers := users.nusers + 1 })

/-- The loop of `deleteUser` from slot `i` on, with `n` slots to go. -/
def deleteLoop (username : Option (List UInt8)) :
    Nat → Nat → Bool → Heap → (Nat → Users) → Result (Bool × Heap × (Nat → Users))
  | 0, _, deleted, heap, slots => .ok (deleted, heap, slots)
  | n + 1, i, deleted, heap, slots => do
    if deleted then
      deleteLoop username n (i + 1) true heap (Function.update slots (i - 1) (slots i))
    else
      let same ← strcmpHeap heap username (slots i).name
      if same then
        let heap ← heap.free (slots i).name
        let heap ← heap.free (slots i).pass
        deleteLoop username n (i + 1) true heap (Function.update slots i ⟨none, none⟩)
      else deleteLoop username n (i + 1) false heap slots

def deleteUser (heap : Heap) (users : UserTable) (username : Option (List UInt8)) :
    Result (Heap × UserTable) := do
  let (deleted, heap, slots) ← deleteLoop username users.nusers 0 false heap users.slots
  .ok (heap, { slots := slots, nusers := if deleted then users.nusers - 1 else users.nusers })

end SocksProxy
