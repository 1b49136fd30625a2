import Mathlib.Logic.Function.Basic
import SocksProxy.Lib.Fault

/-!
# A heap of byte blocks

A pointer is NULL or the number of a block. Numbers are never handed out
twice, so a pointer that outlives its block stays recognisable.
-/

namespace SocksProxy.Lib

abbrev Ptr := Option Nat

structure Heap where
  block : Nat → Option (List UInt8)
  next : Nat

def Heap.empty : Heap := ⟨fun _ => none, 0⟩

def Heap.malloc (h : Heap) (n : Nat) : Nat × Heap :=
  (h.next, { block := Function.update h.block h.next (some (List.replicate n 0)), next := h.next + 1 })

/-- The block a pointer names, if it may be accessed. -/
def Heap.load (h : Heap) (p : Ptr) : Result (Nat × List UInt8) :=
  match p with
  | none => .error .nullPointer
  | some a =>
    match h.block a with
    | none => .error .useAfterFree
    | some bytes => .ok (a, bytes)

def Heap.free (h : Heap) (p : Ptr) : Result Heap :=
  match p with
  | none => .ok h
  | some a =>
    match h.block a with
    | none => .error .useAfterFree
    | some _ => .ok { h with block := Function.update h.block a none }

def Heap.store (h : Heap) (p : Ptr) (i : Nat) (b : UInt8) : Result Heap := do
  let (a, bytes) ← h.load p
  if i < bytes.length then
    .ok { h with block := Function.update h.block a (some (bytes.set i b)) }
  else .error .outOfBounds

/-- The grown block gets a new number; the old one is gone. -/
def Heap.realloc (h : Heap) (p : Ptr) (n : Nat) : Result (Nat × Heap) := do
  let (a, bytes) ← h.load p
  let grown := bytes.take n ++ List.replicate (n - bytes.length) 0
  .ok (h.next, {
    block := Function.update (Function.update h.block a none) h.next (some grown)
    next := h.next + 1 })

/-- `strcmp(xs, ys) == 0`, reading byte by byte. -/
def strEq : List UInt8 → List UInt8 → Result Bool
  | x :: xs, y :: ys => if x ≠ y then .ok false else if x = 0 then .ok true else strEq xs ys
  | _, _ => .error .outOfBounds

/-- The characters before the terminating NUL. -/
def cString : List UInt8 → Result (List UInt8)
  | [] => .error .outOfBounds
  | x :: xs => if x = 0 then .ok [] else cString xs >>= fun s => .ok (x :: s)

/-- `malloc(strlen(s) + 1)` and `strcpy` of a string. -/
def Heap.strdup (h : Heap) (s : List UInt8) : Nat × Heap :=
  (h.next, { block := Function.update h.block h.next (some (s ++ [0])), next := h.next + 1 })

/-- A block with a single owner, which is never read through another pointer. -/
inductive Owned (α : Type)
  | null
  | live (a : α)
  | freed

section
variable {α : Type}

def Owned.get : Owned α → Result α
  | .live a => .ok a
  | .null => .error .nullPointer
  | .freed => .error .useAfterFree

@[simp] theorem Owned.get_live (a : α) : (Owned.live a).get = .ok a := rfl

theorem Owned.get_eq_ok {p : Owned α} {a : α} : p.get = .ok a ↔ p = .live a := by
  cases p <;> simp [Owned.get]

end

end SocksProxy.Lib
