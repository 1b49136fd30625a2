import Mathlib.Data.List.Flatten
import Mathlib.Data.List.Forall2
import Mathlib.Data.List.TakeWhile
import SocksProxy.MngRequest
import SocksProxy.Lib.Run

/-!
# The users table as a list of accounts

`Tabled` reads the slots and the heap as a list of accounts. Additions append to
it, a deletion takes out the first account of the name and closes the gap, and
`checkCredentials` looks for the first account with both strings. Nothing keeps
names from repeating, so a deletion revokes a name if and only if it was there at
most once.
-/

namespace SocksProxy

open Lib

/-! ## args.c -/

def colon : UInt8 := 0x3A

/-- `user`: the argument is cut at its first colon. -/
def user (heap : Heap) (s : List UInt8) : Result (Heap × Users) :=
  if colon ∈ s then
    let (newUsername, heap) := heap.strdup (s.takeWhile (· ≠ colon))
    let (newPassword, heap) := heap.strdup (s.dropWhile (· ≠ colon)).tail
    .ok (heap, ⟨some newUsername, some newPassword⟩)
  else .error .exit

/-- The characters of a C string. -/
def chars (s : List UInt8) : List UInt8 := s.takeWhile (· ≠ 0)

/-- The option `-u` in `parse_args`; a process that it stops has no table. -/
def optionUser (heap : Heap) (users : UserTable) (optarg : List UInt8) :
    Result (Heap × UserTable) :=
  if maxUsers ≤ users.nusers then .error .exit
  else do
    let r ← user heap (chars optarg)
    .ok (r.1, ⟨Function.update users.slots users.nusers r.2, users.nusers + 1⟩)

/-! ## What happens to the table -/

/-- The strings of a request are the blocks of its parser, which end with a NUL.
`elsewhere` is what the rest of the process does with its own blocks. -/
inductive TableOp
  | option (optarg : List UInt8)
  | addUser (username password : List UInt8)
  | deleteUser (username : List UInt8)
  | elsewhere (heap : Heap)

/-- An addition to a full table is answered with an error and changes nothing. -/
def TableOp.apply (σ : Heap × UserTable) : TableOp → Result (Heap × UserTable)
  | .option optarg => optionUser σ.1 σ.2 optarg
  | .addUser username password =>
    if σ.2.nusers = maxUsers then .ok σ
    else SocksProxy.addUser σ.1 σ.2 (some (username ++ [0])) (some (password ++ [0]))
  | .deleteUser username => SocksProxy.deleteUser σ.1 σ.2 (some (username ++ [0]))
  | .elsewhere heap => .ok (heap, σ.2)

/-- The strings of the table are untouched, and no block is handed out twice. -/
structure Spared (t : UserTable) (heap heap' : Heap) : Prop where
  strings : ∀ i < t.nusers, ∀ b, (t.slots i).name = some b ∨ (t.slots i).pass = some b →
    heap'.block b = heap.block b
  fresh : ∀ b, heap'.next ≤ b → heap'.block b = none

def TableStep (σ : Heap × UserTable) (op : TableOp) (τ : Heap × UserTable) : Prop :=
  op.apply σ = .ok τ ∧ ∀ heap, op = .elsewhere heap → Spared σ.2 σ.1 heap

/-- A request or an option that adds the name. -/
def TableOp.Adds (name : List UInt8) : TableOp → Prop
  | .option optarg => (chars optarg).takeWhile (· ≠ colon) = chars name
  | .addUser username _ => chars username = chars name
  | .deleteUser _ | .elsewhere _ => False

/-- How many slots have the name. -/
def UserTable.named (heap : Heap) (t : UserTable) (name : List UInt8) : Nat :=
  (List.range t.nusers).countP fun i =>
    match strcmpHeap heap (some (name ++ [0])) (t.slots i).name with
    | .ok same => same
    | .error _ => false

/-! ## The list of accounts -/

@[ext]
structure Account where
  name : List UInt8
  pass : List UInt8
  deriving DecidableEq, Repr

/-- Two pointers to the strings of an account. -/
def Stored (heap : Heap) (p : Nat × Nat) (a : Account) : Prop :=
  heap.block p.1 = some (a.name ++ [0]) ∧ heap.block p.2 = some (a.pass ++ [0]) ∧
    chars a.name = a.name ∧ chars a.pass = a.pass

def slotOf (p : Nat × Nat) : Users := ⟨some p.1, some p.2⟩

/-- The slots from `i` on hold the pointers. -/
def Slots (slots : Nat → Users) (i : Nat) (ptrs : List (Nat × Nat)) : Prop :=
  ∀ j p, ptrs[j]? = some p → slots (i + j) = slotOf p

/-- The table holds the accounts, each string in a block of its own. -/
structure Tabled (heap : Heap) (t : UserTable) (ptrs : List (Nat × Nat)) (accounts : List Account) :
    Prop where
  length : t.nusers = ptrs.length
  slots : Slots t.slots 0 ptrs
  stored : List.Forall₂ (Stored heap) ptrs accounts
  distinct : (ptrs.flatMap fun p => [p.1, p.2]).Nodup
  fresh : ∀ a, heap.next ≤ a → heap.block a = none

section
variable {heap heap' : Heap} {t : UserTable} {ptrs : List (Nat × Nat)} {accounts : List Account}
  {slots : Nat → Users} {a : Account} {p : Nat × Nat} {i n : Nat}

/-! ## Strings -/

theorem strEq_chars (u v : List UInt8) :
    strEq (u ++ [0]) (v ++ [0]) = .ok (decide (chars u = chars v)) := by
  induction u generalizing v with
  | nil =>
    cases v with
    | nil => rfl
    | cons y v =>
      by_cases zero : y = 0
      · subst zero
        rfl
      · simp [strEq, chars, zero, Ne.symm zero]
  | cons x u ih =>
    cases v with
    | nil =>
      by_cases zero : x = 0
      · subst zero
        rfl
      · simp [strEq, chars, zero]
    | cons y v =>
      by_cases same : x = y
      · subst same
        by_cases zero : x = 0
        · subst zero
          simp [strEq, chars]
        · have rest := ih v
          simp only [chars] at rest
          simp [strEq, chars, zero, rest]
      · by_cases zero : x = 0
        · subst zero
          simp [strEq, chars, same, Ne.symm same]
        · by_cases zero' : y = 0
          · subst zero'
            simp [strEq, chars, zero]
          · simp [strEq, chars, same, zero, zero']

theorem cString_front (u rest : List UInt8) : cString (u ++ [0] ++ rest) = .ok (chars u) := by
  induction u with
  | nil => rfl
  | cons x u ih =>
    by_cases zero : x = 0
    · subst zero
      rfl
    · simp only [chars] at ih
      simp [cString, chars, zero] at ih ⊢
      rw [ih]
      rfl

theorem cString_chars (u : List UInt8) : cString (u ++ [0]) = .ok (chars u) := by
  have front := cString_front u []
  rwa [List.append_nil] at front

theorem chars_chars (u : List UInt8) : chars (chars u) = chars u := List.takeWhile_idem

theorem strcmp_stored {b : Nat} {v : List UInt8} (u : List UInt8) (block : heap.block b = some (v ++ [0]))
    (plain : chars v = v) :
    strcmpHeap heap (some (u ++ [0])) (some b) = .ok (decide (v = chars u)) := by
  have loaded : heap.load (some b) = .ok (b, v ++ [0]) := by simp [Heap.load, block]
  simp only [strcmpHeap, deref, ok_bind, loaded, strEq_chars, plain, eq_comm]

/-! ## Looking an account up -/

theorem Slots.tail (h : Slots slots i (p :: ptrs)) : Slots slots (i + 1) ptrs := by
  intro j q at'
  have next := h (j + 1) q at'
  rwa [← Nat.add_assoc, Nat.add_right_comm] at next

theorem Slots.head (h : Slots slots i (p :: ptrs)) : slots i = slotOf p := h 0 p rfl

/-- The lookup finds the first account with both strings. -/
theorem findCredentials_spec (username password : List UInt8)
    (stored : List.Forall₂ (Stored heap) ptrs accounts) (held : Slots t.slots i ptrs) :
    findCredentials heap t (some (username ++ [0])) (some (password ++ [0])) ptrs.length i =
      .ok ((accounts.findIdx? fun a => decide (a = ⟨chars username, chars password⟩)).map
        (i + ·)) := by
  induction stored generalizing i with
  | nil => rfl
  | @cons p a ptrs accounts here _ ih =>
    obtain ⟨name, pass, plain, plain'⟩ := here
    have slot := held.head
    have rest := ih held.tail
    have sameName := strcmp_stored username name plain
    have samePass := strcmp_stored password pass plain'
    have shifted : (fun k => i + 1 + k) = (fun k => i + k) ∘ (fun k => k + 1) := by
      funext k
      exact (Nat.add_assoc i 1 k).trans (congrArg (i + ·) (Nat.add_comm 1 k))
    have head : a = ⟨chars username, chars password⟩ ↔
        a.name = chars username ∧ a.pass = chars password := Account.ext_iff
    simp only [List.length_cons, findCredentials, slot, slotOf, sameName, samePass, ok_bind,
      List.findIdx?_cons, decide_eq_true_eq, head]
    by_cases named : a.name = chars username
    · by_cases matched : a.pass = chars password
      · simp [named, matched]
      · simp only [named, matched, if_true, if_false, and_false, Option.map_map]
        rw [rest, shifted]
    · simp only [named, if_false, false_and, Option.map_map]
      rw [rest, shifted]

theorem checkCredentials_spec (username password : List UInt8) (h : Tabled heap t ptrs accounts) :
    checkCredentials heap t (some (username ++ [0])) (some (password ++ [0])) =
      .ok (match accounts.findIdx? fun a => decide (a = ⟨chars username, chars password⟩) with
        | some i => (0x00, some i)
        | none => (0x01, none)) := by
  have found := findCredentials_spec username password h.stored h.slots
  rw [← h.length] at found
  simp only [checkCredentials, found, ok_bind]
  cases accounts.findIdx? fun a => decide (a = ⟨chars username, chars password⟩) <;> simp

/-- Credentials are refused if and only if no account has them. -/
theorem checkCredentials_refused (username password : List UInt8)
    (h : Tabled heap t ptrs accounts) :
    checkCredentials heap t (some (username ++ [0])) (some (password ++ [0])) =
      .ok (0x01, none) ↔ ⟨chars username, chars password⟩ ∉ accounts := by
  rw [checkCredentials_spec username password h]
  cases found : accounts.findIdx? fun a => decide (a = ⟨chars username, chars password⟩) with
  | none =>
    refine iff_of_true rfl fun member => ?_
    have := List.findIdx?_eq_none_iff.mp found _ member
    simp at this
  | some i =>
    refine iff_of_false (by simp) (not_not.mpr ?_)
    obtain ⟨bound, matched, -⟩ := List.findIdx?_eq_some_iff_getElem.mp found
    rw [← of_decide_eq_true matched]
    exact List.getElem_mem bound

theorem named_spec (name : List UInt8) (h : Tabled heap t ptrs accounts) :
    t.named heap name = accounts.countP fun a => decide (a.name = chars name) := by
  have cells : ∀ {ptrs accounts i}, List.Forall₂ (Stored heap) ptrs accounts →
      Slots t.slots i ptrs → ((List.range' i ptrs.length).countP fun i =>
        match strcmpHeap heap (some (name ++ [0])) (t.slots i).name with
        | .ok same => same
        | .error _ => false) = accounts.countP fun a => decide (a.name = chars name) := by
    intro ptrs accounts i stored held
    induction stored generalizing i with
    | nil => rfl
    | @cons p a ptrs accounts here _ ih =>
      obtain ⟨block, -, plain, -⟩ := here
      rw [List.length_cons, List.range'_succ, List.countP_cons, List.countP_cons, ih held.tail,
        held.head]
      simp only [slotOf, strcmp_stored name block plain]
  unfold UserTable.named
  rw [h.length, List.range_eq_range']
  exact cells h.stored h.slots

/-! ## Additions -/

def blocks (ptrs : List (Nat × Nat)) : List Nat := ptrs.flatMap fun p => [p.1, p.2]

@[simp] theorem blocks_nil : blocks [] = [] := rfl

@[simp] theorem blocks_cons : blocks (p :: ptrs) = p.1 :: p.2 :: blocks ptrs := rfl

@[simp] theorem blocks_append (qs : List (Nat × Nat)) :
    blocks (ptrs ++ qs) = blocks ptrs ++ blocks qs := List.flatMap_append

theorem Stored.of_blocks (h : Stored heap p a) (left : heap'.block p.1 = heap.block p.1)
    (right : heap'.block p.2 = heap.block p.2) : Stored heap' p a :=
  ⟨left.trans h.1, right.trans h.2.1, h.2.2⟩

theorem stored_kept (stored : List.Forall₂ (Stored heap) ptrs accounts)
    (same : ∀ b ∈ blocks ptrs, heap'.block b = heap.block b) :
    List.Forall₂ (Stored heap') ptrs accounts := by
  induction stored with
  | nil => exact .nil
  | cons here _ ih =>
    simp only [blocks_cons, List.mem_cons, forall_eq_or_imp] at same
    exact .cons (here.of_blocks same.1 same.2.1) (ih same.2.2)

theorem stored_live (stored : List.Forall₂ (Stored heap) ptrs accounts) {b : Nat}
    (member : b ∈ blocks ptrs) : heap.block b ≠ none := by
  induction stored with
  | nil => cases member
  | cons here _ ih =>
    simp only [blocks_cons, List.mem_cons] at member
    rcases member with rfl | rfl | member
    · simp [here.1]
    · simp [here.2.1]
    · exact ih member

theorem Tabled.plain (h : Tabled heap t ptrs accounts) :
    ∀ a ∈ accounts, chars a.name = a.name ∧ chars a.pass = a.pass := by
  have stored := h.stored
  clear h
  induction stored with
  | nil => simp
  | cons here _ ih => exact List.forall_mem_cons.mpr ⟨here.2.2, ih⟩

theorem Tabled.old (h : Tabled heap t ptrs accounts) {b : Nat} (member : b ∈ blocks ptrs) :
    b < heap.next := by
  by_contra late
  exact stored_live h.stored member (h.fresh b (Nat.le_of_not_lt late))

/-- Two copies on the heap, and a slot that points to them. -/
def appendUser (heap : Heap) (t : UserTable) (name pass : List UInt8) : Heap × UserTable :=
  ((heap.strdup name).2.strdup pass |>.2,
    ⟨Function.update t.slots t.nusers (slotOf (heap.next, heap.next + 1)), t.nusers + 1⟩)

theorem appendUser_tabled (name pass : List UInt8) (h : Tabled heap t ptrs accounts)
    (plain : chars name = name) (plain' : chars pass = pass) :
    Tabled (appendUser heap t name pass).1 (appendUser heap t name pass).2
      (ptrs ++ [(heap.next, heap.next + 1)]) (accounts ++ [⟨name, pass⟩]) := by
  have kept : ∀ b, b < heap.next → (appendUser heap t name pass).1.block b = heap.block b := by
    intro b old
    simp [appendUser, Heap.strdup, Function.update_of_ne (by omega : b ≠ heap.next),
      Function.update_of_ne (by omega : b ≠ heap.next + 1)]
  have count := h.length
  constructor
  · simp [appendUser, count]
  · intro j p at'
    rcases Nat.lt_trichotomy j ptrs.length with before | rfl | after
    · rw [List.getElem?_append_left before] at at'
      have slot := h.slots j p at'
      simp only [Nat.zero_add] at slot ⊢
      exact (Function.update_of_ne (by omega) _ _).trans slot
    · have here : (heap.next, heap.next + 1) = p := by simpa using at'
      simp [appendUser, h.length, ← here]
    · have none := List.getElem?_eq_none
        (show (ptrs ++ [(heap.next, heap.next + 1)]).length ≤ j by simp; omega)
      rw [none] at at'
      cases at'
  · have old := stored_kept h.stored fun b member => kept b (h.old member)
    have new : Stored (appendUser heap t name pass).1 (heap.next, heap.next + 1) ⟨name, pass⟩ := by
      refine ⟨?_, ?_, plain, plain'⟩
      · simp [appendUser, Heap.strdup]
      · simp [appendUser, Heap.strdup]
    exact List.rel_append old (.cons new .nil)
  · have apart : ∀ b ∈ blocks ptrs, b ≠ heap.next ∧ b ≠ heap.next + 1 := by
      intro b member
      have := h.old member
      omega
    change (blocks _).Nodup
    rw [blocks_append, List.nodup_append]
    refine ⟨h.distinct, by simp, ?_⟩
    rintro b member b' late rfl
    have := apart b member
    simp at late
    omega
  · intro b late
    have past : heap.next + 2 ≤ b := late
    have gone := h.fresh b (by omega)
    simp [appendUser, Heap.strdup, Function.update_of_ne (by omega : b ≠ heap.next),
      Function.update_of_ne (by omega : b ≠ heap.next + 1), gone]

theorem addUser_append (username password : List UInt8) (room : t.nusers < maxUsers) :
    addUser heap t (some (username ++ [0])) (some (password ++ [0])) =
      .ok (appendUser heap t (chars username) (chars password)) := by
  simp only [addUser, Nat.not_le.mpr room, if_false, deref, ok_bind, cString_chars]
  rfl

/-- An option is cut at its first colon. -/
theorem optionUser_append {optarg : List UInt8} {r : Heap × UserTable}
    (h : optionUser heap t optarg = .ok r) :
    r = appendUser heap t ((chars optarg).takeWhile (· ≠ colon))
      ((chars optarg).dropWhile (· ≠ colon)).tail := by
  unfold optionUser at h
  split at h
  · cases h
  · obtain ⟨cut, parsed, joined⟩ := bind_eq_ok.mp h
    cases joined
    unfold user at parsed
    split at parsed
    · cases parsed
      rfl
    · cases parsed

theorem chars_of_plain {u : List UInt8} : chars u = u ↔ (0 : UInt8) ∉ u := by
  simp [chars, List.takeWhile_eq_self_iff]
  grind

theorem plain_sublist {u v : List UInt8} (sub : u.Sublist (chars v)) : chars u = u := by
  rw [chars_of_plain]
  intro zero
  exact chars_of_plain.mp (chars_chars v) (sub.subset zero)

/-! ## Deletions -/

/-- After the deletion every later slot moves one place down. -/
theorem deleteLoop_shift (username : Option (List UInt8)) :
    deleteLoop username n (i + 1) true heap slots =
      .ok (true, heap, fun j => if i ≤ j ∧ j < i + n then slots (j + 1) else slots j) := by
  induction n generalizing i slots with
  | zero =>
    have none : ∀ j, ¬(i ≤ j ∧ j < i + 0) := by omega
    simp only [deleteLoop, none, if_false]
  | succ n ih =>
    rw [deleteLoop, if_pos rfl, ih, Nat.add_sub_cancel]
    congr 3
    funext j
    by_cases first : j = i
    · subst first
      have low : ¬(j + 1 ≤ j ∧ j < j + 1 + n) := by omega
      have high : j ≤ j ∧ j < j + (n + 1) := by omega
      simp only [if_neg low, if_pos high, Function.update_self]
    · have same : (i + 1 ≤ j ∧ j < i + 1 + n) ↔ (i ≤ j ∧ j < i + (n + 1)) := by omega
      by_cases moved : i ≤ j ∧ j < i + (n + 1)
      · have beyond : j + 1 ≠ i := by omega
        simp only [if_pos moved, if_pos (same.mpr moved), Function.update_of_ne beyond]
      · simp only [if_neg moved, if_neg (mt same.mp moved), Function.update_of_ne first]

def named (username : List UInt8) (a : Account) : Bool := decide (a.name = chars username)

/-- The result of the loop from slot `i` on. -/
structure Removed (heap : Heap) (slots : Nat → Users) (i : Nat) (ptrs : List (Nat × Nat))
    (accounts : List Account) (heap' : Heap) (slots' : Nat → Users) (ptrs' : List (Nat × Nat)) :
    Prop where
  held : Slots slots' i ptrs'
  stored : List.Forall₂ (Stored heap') ptrs' accounts
  sub : ptrs'.Sublist ptrs
  below : ∀ j < i, slots' j = slots j
  next : heap'.next = heap.next
  elsewhere : ∀ b ∉ blocks ptrs, heap'.block b = heap.block b
  gone : ∀ b ∈ blocks ptrs, b ∉ blocks ptrs' → heap'.block b = none

/-- The heap after both strings of a slot are freed. -/
def cleared (heap : Heap) (p : Nat × Nat) : Heap :=
  { heap with block := Function.update (Function.update heap.block p.1 none) p.2 none }

theorem cleared_other {b : Nat} (left : b ≠ p.1) (right : b ≠ p.2) :
    (cleared heap p).block b = heap.block b := by
  simp [cleared, Function.update_of_ne right, Function.update_of_ne left]

theorem cleared_left (apart : p.1 ≠ p.2) : (cleared heap p).block p.1 = none := by
  simp only [cleared, Function.update_of_ne apart, Function.update_self]

theorem cleared_right : (cleared heap p).block p.2 = none := Function.update_self ..

theorem Stored.cleared (here : Stored heap p a) (apart : p.1 ≠ p.2) :
    (heap.free (some p.1) >>= fun heap => heap.free (some p.2)) = .ok (cleared heap p) := by
  simp [Heap.free, here.1, here.2.1, Function.update_of_ne (Ne.symm apart), SocksProxy.cleared]

/-- The loop when the first slot has the name. -/
theorem deleteLoop_hit (username : List UInt8) (here : Stored heap p a)
    (rest : List.Forall₂ (Stored heap) ptrs accounts) (held : Slots slots i (p :: ptrs))
    (distinct : (blocks (p :: ptrs)).Nodup) (hit : a.name = chars username) :
    ∃ slots', deleteLoop (some (username ++ [0])) (ptrs.length + 1) i false heap slots =
        .ok (true, cleared heap p, slots') ∧
      Removed heap slots i (p :: ptrs) accounts (cleared heap p) slots' ptrs := by
  simp only [blocks_cons, List.nodup_cons, List.mem_cons, not_or] at distinct
  obtain ⟨⟨apart, away⟩, away', -⟩ := distinct
  have sameName := strcmp_stored username here.1 here.2.2.1
  have freed := here.cleared apart
  obtain ⟨heap₁, first, second⟩ := bind_eq_ok.mp freed
  let emptied := Function.update slots i ⟨none, none⟩
  refine ⟨fun j => if i ≤ j ∧ j < i + ptrs.length then emptied (j + 1) else emptied j, ?_, ?_⟩
  · simp only [deleteLoop, Bool.false_eq_true, if_false, held.head, slotOf, sameName, hit, ok_bind,
      decide_true, if_true, first, second, deleteLoop_shift, emptied]
  constructor
  · intro j q at'
    have bound : j < ptrs.length := (List.getElem?_eq_some_iff.mp at').1
    have inside : i ≤ i + j ∧ i + j < i + ptrs.length := by omega
    have moved : emptied (i + j + 1) = slots (i + 1 + j) := by
      rw [Nat.add_right_comm]
      exact Function.update_of_ne (by omega) _ _
    calc _ = emptied (i + j + 1) := if_pos inside
      _ = slots (i + 1 + j) := moved
      _ = slotOf q := held.tail j q at'
  · exact stored_kept rest fun b member =>
      cleared_other (fun same => away (same ▸ member)) (fun same => away' (same ▸ member))
  · exact List.sublist_cons_self _ _
  · intro j low
    have outside : ¬(i ≤ j ∧ j < i + ptrs.length) := by omega
    exact (if_neg outside).trans (Function.update_of_ne (by omega) _ _)
  · rfl
  · intro b out
    simp only [blocks_cons, List.mem_cons, not_or] at out
    exact cleared_other out.1 out.2.1
  · intro b member out
    simp only [blocks_cons, List.mem_cons] at member
    rcases member with rfl | rfl | member
    · exact cleared_left apart
    · exact cleared_right
    · exact absurd member out

theorem deleteLoop_spec (username : List UInt8) (stored : List.Forall₂ (Stored heap) ptrs accounts)
    (held : Slots slots i ptrs) (distinct : (blocks ptrs).Nodup) :
    ∃ heap' slots' ptrs',
      deleteLoop (some (username ++ [0])) ptrs.length i false heap slots =
        .ok (accounts.any (named username), heap', slots') ∧
      Removed heap slots i ptrs (accounts.eraseP (named username)) heap' slots' ptrs' := by
  induction stored generalizing i with
  | nil =>
    exact ⟨heap, slots, [], rfl, held, .nil, .refl _, fun _ _ => rfl, rfl, fun _ _ => rfl,
      fun _ member => (nomatch member)⟩
  | @cons p a ptrs accounts here rest ih =>
    by_cases hit : a.name = chars username
    · obtain ⟨slots', ran, removed⟩ := deleteLoop_hit username here rest held distinct hit
      have found : named username a = true := decide_eq_true hit
      refine ⟨cleared heap p, slots', ptrs, ?_, ?_⟩
      · simpa only [List.length_cons, List.any_cons, found, Bool.true_or] using ran
      · simpa only [List.eraseP_cons, found, cond_true] using removed
    · have sameName := strcmp_stored username here.1 here.2.2.1
      have slot := held.head
      have missed : named username a = false := decide_eq_false hit
      simp only [blocks_cons, List.nodup_cons, List.mem_cons, not_or] at distinct
      obtain ⟨⟨-, away⟩, away', distinct⟩ := distinct
      obtain ⟨heap', slots', ptrs', ran, held', stored', sub, below, next, elsewhere, gone⟩ :=
        ih held.tail distinct
      refine ⟨heap', slots', p :: ptrs', ?_, ?_⟩
      · simp only [List.length_cons, deleteLoop, Bool.false_eq_true, if_false, slot, slotOf,
          sameName, hit, ok_bind, decide_false, ran, List.any_cons, missed, Bool.false_or]
      simp only [List.eraseP_cons, missed, cond_false]
      constructor
      · intro j q at'
        cases j with
        | zero =>
          have first : p = q := by simpa using at'
          rw [Nat.add_zero, below i (Nat.lt_succ_self i), slot, first]
        | succ j =>
          have moved := held' j q at'
          rwa [← Nat.add_assoc, Nat.add_right_comm]
      · exact .cons (here.of_blocks (elsewhere _ away) (elsewhere _ away')) stored'
      · exact sub.cons_cons p
      · exact fun j low => below j (Nat.lt_succ_of_lt low)
      · exact next
      · intro b out
        simp only [blocks_cons, List.mem_cons, not_or] at out
        exact elsewhere b out.2.2
      · intro b member out
        simp only [blocks_cons, List.mem_cons, not_or] at member out
        rcases member with left | right | member
        · exact absurd left out.1
        · exact absurd right out.2.1
        · exact gone b member out.2.2

/-- A deletion takes out the first account of the name, and nothing else changes. -/
theorem deleteUser_spec (username : List UInt8) (h : Tabled heap t ptrs accounts) :
    ∃ heap' t' ptrs', deleteUser heap t (some (username ++ [0])) = .ok (heap', t') ∧
      Tabled heap' t' ptrs' (accounts.eraseP (named username)) ∧
      Removed heap t.slots 0 ptrs (accounts.eraseP (named username)) heap' t'.slots ptrs' := by
  obtain ⟨heap', slots', ptrs', ran, removed⟩ :=
    deleteLoop_spec username h.stored h.slots h.distinct
  rw [← h.length] at ran
  have many := h.stored.length_eq
  have left := removed.stored.length_eq
  have count := h.length
  let kept := if accounts.any (named username) then t.nusers - 1 else t.nusers
  refine ⟨heap', ⟨slots', kept⟩, ptrs', ?_, ⟨?_, removed.held, removed.stored, ?_, ?_⟩, removed⟩
  · simp only [deleteUser, ran, ok_bind, kept]
  · rw [List.length_eraseP, many.symm] at left
    simp only [left, count, kept]
  · exact h.distinct.sublist (removed.sub.flatMap _)
  · intro b late
    rw [removed.next] at late
    have out : b ∉ blocks ptrs := fun member => Nat.not_lt.mpr late (h.old member)
    exact (removed.elsewhere b out).trans (h.fresh b late)

theorem deleteUser_tabled (username : List UInt8) (h : Tabled heap t ptrs accounts) :
    ∃ heap' t' ptrs', deleteUser heap t (some (username ++ [0])) = .ok (heap', t') ∧
      Tabled heap' t' ptrs' (accounts.eraseP (named username)) := by
  obtain ⟨heap', t', ptrs', ran, tabled, -⟩ := deleteUser_spec username h
  exact ⟨heap', t', ptrs', ran, tabled⟩

/-! ## Runs -/

/-- The accounts after a step. -/
def TableOp.listed (accounts : List Account) : TableOp → List Account
  | .option optarg =>
    accounts ++ [⟨(chars optarg).takeWhile (· ≠ colon),
      ((chars optarg).dropWhile (· ≠ colon)).tail⟩]
  | .addUser username password =>
    if maxUsers ≤ accounts.length then accounts
    else accounts ++ [⟨chars username, chars password⟩]
  | .deleteUser username => accounts.eraseP (named username)
  | .elsewhere _ => accounts

theorem spared_tabled (h : Tabled heap t ptrs accounts) (spared : Spared t heap heap') :
    Tabled heap' t ptrs accounts := by
  refine ⟨h.length, h.slots, stored_kept h.stored ?_, h.distinct, spared.fresh⟩
  intro b member
  obtain ⟨p, slot, here⟩ := List.mem_flatMap.mp member
  obtain ⟨i, bound, rfl⟩ := List.mem_iff_getElem.mp slot
  have held : t.slots (0 + i) = slotOf ptrs[i] := h.slots i _ (List.getElem?_eq_getElem bound)
  rw [Nat.zero_add] at held
  refine spared.strings i (h.length ▸ bound) b ?_
  simp only [List.mem_cons, List.not_mem_nil, or_false] at here
  rcases here with rfl | rfl
  · exact .inl (by rw [held]; rfl)
  · exact .inr (by rw [held]; rfl)

/-- A step of the table is a step of the list. -/
theorem step_tabled {σ τ : Heap × UserTable} {op : TableOp} (h : Tabled σ.1 σ.2 ptrs accounts)
    (step : TableStep σ op τ) : ∃ ptrs', Tabled τ.1 τ.2 ptrs' (op.listed accounts) := by
  obtain ⟨ran, spared⟩ := step
  have many := h.stored.length_eq
  cases op with
  | option optarg =>
    rw [optionUser_append ran]
    have plain := plain_sublist (List.takeWhile_sublist (l := chars optarg) (· ≠ colon))
    have plain' := plain_sublist ((List.tail_sublist _).trans
      (List.dropWhile_sublist (l := chars optarg) (· ≠ colon)))
    exact ⟨_, appendUser_tabled _ _ h plain plain'⟩
  | addUser username password =>
    have count := h.length
    simp only [TableOp.apply] at ran
    by_cases room : σ.2.nusers < maxUsers
    · rw [if_neg (Nat.ne_of_lt room), addUser_append _ _ room] at ran
      cases ran
      rw [TableOp.listed, if_neg (by omega)]
      exact ⟨_, appendUser_tabled _ _ h (chars_chars _) (chars_chars _)⟩
    · have same : τ = σ := by
        split at ran
        · cases ran
          rfl
        · rw [addUser, if_pos (Nat.le_of_not_lt room)] at ran
          cases ran
          rfl
      rw [TableOp.listed, if_pos (by omega), same]
      exact ⟨ptrs, h⟩
  | deleteUser username =>
    obtain ⟨heap', t', ptrs', erased, tabled⟩ := deleteUser_tabled username h
    cases erased.symm.trans ran
    exact ⟨ptrs', tabled⟩
  | elsewhere heap =>
    cases ran
    exact ⟨ptrs, spared_tabled h (spared heap rfl)⟩

/-- The table of a new process. -/
def noUsers : Heap × UserTable := (Heap.empty, UserTable.empty)

theorem noUsers_tabled : Tabled noUsers.1 noUsers.2 [] [] :=
  ⟨rfl, fun _ _ at' => (nomatch at'), .nil, List.nodup_nil, fun _ _ => rfl⟩

theorem run_tabled {σ : Heap × UserTable} {ls : List ((Heap × UserTable) × TableOp)}
    (run : Run TableStep noUsers ls σ) : ∃ ptrs accounts, Tabled σ.1 σ.2 ptrs accounts := by
  refine run.always (I := fun σ => ∃ ptrs accounts, Tabled σ.1 σ.2 ptrs accounts) ?_
    ⟨[], [], noUsers_tabled⟩
  rintro σ op τ ⟨ptrs, accounts, tabled⟩ step
  obtain ⟨ptrs', tabled'⟩ := step_tabled tabled step
  exact ⟨ptrs', _, tabled'⟩

theorem step_few {σ τ : Heap × UserTable} {op : TableOp} (few : σ.2.nusers ≤ maxUsers)
    (step : TableStep σ op τ) : τ.2.nusers ≤ maxUsers := by
  obtain ⟨ran, -⟩ := step
  cases op with
  | option optarg =>
    simp only [TableOp.apply, optionUser] at ran
    split at ran
    · cases ran
    · obtain ⟨cut, -, joined⟩ := bind_eq_ok.mp ran
      cases joined
      change σ.2.nusers + 1 ≤ maxUsers
      omega
  | addUser username password =>
    simp only [TableOp.apply] at ran
    split at ran
    · cases ran
      exact few
    · rename_i room
      rw [addUser_append _ _ (by omega)] at ran
      cases ran
      change σ.2.nusers + 1 ≤ maxUsers
      omega
  | deleteUser username =>
    simp only [TableOp.apply, SocksProxy.deleteUser] at ran
    obtain ⟨⟨deleted, heap, slots⟩, -, ran⟩ := bind_eq_ok.mp ran
    cases ran
    change (if deleted then σ.2.nusers - 1 else σ.2.nusers) ≤ maxUsers
    split <;> omega
  | elsewhere heap =>
    cases ran
    exact few

theorem run_few {σ : Heap × UserTable} {ls : List ((Heap × UserTable) × TableOp)}
    (run : Run TableStep noUsers ls σ) : σ.2.nusers ≤ maxUsers :=
  run.always (I := fun σ => σ.2.nusers ≤ maxUsers) (fun _ _ _ few step => step_few few step)
    (Nat.zero_le _)

/-- Without an addition of the name, no account gets it. -/
theorem listed_unnamed {name : List UInt8} {op : TableOp} (other : ¬op.Adds name)
    (none : ∀ a ∈ accounts, a.name ≠ chars name) :
    ∀ a ∈ op.listed accounts, a.name ≠ chars name := by
  intro a member
  cases op with
  | option optarg =>
    rcases List.mem_append.mp member with old | new
    · exact none a old
    · obtain rfl := List.mem_singleton.mp new
      exact other
  | addUser username password =>
    simp only [TableOp.listed] at member
    split at member
    · exact none a member
    · rcases List.mem_append.mp member with old | new
      · exact none a old
      · obtain rfl := List.mem_singleton.mp new
        exact other
  | deleteUser username => exact none a (List.mem_of_mem_eraseP member)
  | elsewhere heap => exact none a member

theorem run_unnamed {name : List UInt8} {σ τ : Heap × UserTable}
    {ls : List ((Heap × UserTable) × TableOp)} (run : Run TableStep σ ls τ)
    (others : ∀ l ∈ ls, ¬l.2.Adds name) (h : Tabled σ.1 σ.2 ptrs accounts)
    (none : ∀ a ∈ accounts, a.name ≠ chars name) :
    ∃ ptrs accounts, Tabled τ.1 τ.2 ptrs accounts ∧ ∀ a ∈ accounts, a.name ≠ chars name := by
  refine run.invariant (C := fun _ op => ¬op.Adds name)
    (I := fun τ => ∃ ptrs accounts, Tabled τ.1 τ.2 ptrs accounts ∧
      ∀ a ∈ accounts, a.name ≠ chars name) ?_ others ⟨ptrs, accounts, h, none⟩
  rintro σ op τ ⟨ptrs, accounts, tabled, none⟩ other step
  obtain ⟨ptrs', tabled'⟩ := step_tabled tabled step
  exact ⟨ptrs', _, tabled', listed_unnamed other none⟩

/-- Erasing one account of the name leaves none if and only if there was at most one. -/
theorem eraseP_unnamed (name : List UInt8) :
    (∀ a ∈ accounts.eraseP (named name), a.name ≠ chars name) ↔
      accounts.countP (named name) ≤ 1 := by
  induction accounts with
  | nil => simp
  | cons a accounts ih =>
    by_cases hit : a.name = chars name
    · have found : named name a = true := decide_eq_true hit
      have rest : (∀ a ∈ accounts, a.name ≠ chars name) ↔ accounts.countP (named name) = 0 := by
        simp [List.countP_eq_zero, named]
      rw [List.eraseP_cons_of_pos found, List.countP_cons_of_pos found, rest]
      omega
    · have missed : ¬named name a = true := by simp [named, hit]
      rw [List.eraseP_cons_of_neg missed, List.countP_cons_of_neg missed, ← ih]
      simp [hit]

/-- After a deletion, no password opens the name until it is added again, if and only
if at most one slot had it. -/
theorem deletion_revokes_iff {σ τ : Heap × UserTable} {ls : List ((Heap × UserTable) × TableOp)}
    (name : List UInt8) (run : Run TableStep noUsers ls σ)
    (deletion : TableStep σ (.deleteUser name) τ) :
    (∀ ms υ, Run TableStep τ ms υ → (∀ m ∈ ms, ¬m.2.Adds name) → ∀ password,
      checkCredentials υ.1 υ.2 (some (name ++ [0])) (some (password ++ [0])) =
        .ok (0x01, none)) ↔
      σ.2.named σ.1 name ≤ 1 := by
  obtain ⟨ptrs, accounts, tabled⟩ := run_tabled run
  obtain ⟨ptrs', tabled'⟩ := step_tabled tabled deletion
  rw [named_spec name tabled]
  change _ ↔ accounts.countP (named name) ≤ 1
  rw [← eraseP_unnamed]
  constructor
  · intro refused a member hit
    have off := refused [] τ .start (fun _ m => nomatch m) a.pass
    rw [checkCredentials_refused name a.pass tabled', ← hit, (tabled'.plain a member).2] at off
    exact off member
  · intro none ms υ later others password
    obtain ⟨ptrs'', accounts'', tabled'', none'⟩ := run_unnamed later others tabled' none
    rw [checkCredentials_refused name password tabled'']
    exact fun member => none' _ member rfl

/-- One account `u:p`, which the deletion of `u` revokes. -/
theorem deletion_revokes_single : ∃ σ τ ls,
    Run TableStep noUsers ls σ ∧ TableStep σ (.deleteUser [117]) τ ∧ σ.2.named σ.1 [117] ≤ 1 ∧
    ∀ ms υ, Run TableStep τ ms υ → (∀ m ∈ ms, ¬m.2.Adds [117]) → ∀ password,
      checkCredentials υ.1 υ.2 (some [117, 0]) (some (password ++ [0])) = .ok (0x01, none) := by
  let option := TableOp.option [117, 58, 112]
  let σ := appendUser noUsers.1 noUsers.2 [117] [112]
  have added : TableStep noUsers option σ := ⟨rfl, fun _ h => nomatch h⟩
  have run : Run TableStep noUsers [(noUsers, option)] σ := .single added
  obtain ⟨ptrs, accounts, tabled⟩ := run_tabled run
  obtain ⟨heap, t, -, ran, -⟩ := deleteUser_tabled [117] tabled
  have deletion : TableStep σ (.deleteUser [117]) (heap, t) := ⟨ran, fun _ h => nomatch h⟩
  have single : σ.2.named σ.1 [117] ≤ 1 := by decide
  exact ⟨σ, (heap, t), _, run, deletion, single,
    (deletion_revokes_iff [117] run deletion).mpr single⟩

/-- `u:p` was added twice: it still opens the name after a deletion. -/
theorem second_account_remains : ∃ σ τ ls,
    Run TableStep noUsers ls σ ∧ TableStep σ (.deleteUser [117]) τ ∧
    checkCredentials τ.1 τ.2 (some [117, 0]) (some [112, 0]) = .ok (0x00, some 0) := by
  let add := TableOp.addUser [117] [112]
  let σ := appendUser noUsers.1 noUsers.2 [117] [112]
  let τ := appendUser σ.1 σ.2 [117] [112]
  have first : TableStep noUsers add σ := ⟨rfl, fun _ h => nomatch h⟩
  have second : TableStep σ add τ := ⟨rfl, fun _ h => nomatch h⟩
  have once := appendUser_tabled [117] [112] noUsers_tabled rfl rfl
  have tabled := appendUser_tabled [117] [112] once rfl rfl
  obtain ⟨heap, t, ptrs, ran, left⟩ := deleteUser_tabled [117] tabled
  exact ⟨τ, (heap, t), _, .next (.single first) second, ⟨ran, fun _ h => nomatch h⟩,
    checkCredentials_spec [117] [112] left⟩

/-! ## Requests -/

/-- The strings that a request adds are those of the second and the fourth field. -/
theorem processMngParamsRequest_addUser {parser : Parser} {index : UInt8} {c : Conn}
    {username password : List UInt8} (add : mngIndexOf index = some .addUser)
    (first : parser.resultAt 1 = .ok (some (username ++ [0])))
    (second : parser.resultAt 3 = .ok (some (password ++ [0]))) :
    processMngParamsRequest parser index c =
      (TableOp.addUser username password).apply (c.heap, c.users) >>= fun σ =>
        .ok { c with
          heap := σ.1
          users := σ.2
          writeBuffer := statusMngMarshal c.writeBuffer
            (if c.users.nusers = maxUsers then .maxUsersReached else .succeeded) } := by
  simp only [processMngParamsRequest, add, first, second, ok_bind, TableOp.apply]
  split
  · rfl
  · rfl

end

end SocksProxy
