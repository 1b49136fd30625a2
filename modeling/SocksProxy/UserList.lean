import Mathlib.Data.List.Perm.Basic
import SocksProxy.Accounts

/-!
# The users table refines a list

Any sequence of `addUser` and `deleteUser` calls goes through, and the slots then
hold what the same additions and deletions make of the list. The strings balance:
those that were freed and those of the slots are, together and each once, the
strings there were at first and those that the calls allocated.
-/

namespace SocksProxy

open Lib

inductive TableCall
  | addUser (username password : List UInt8)
  | deleteUser (username : List UInt8)
  deriving DecidableEq, Repr

def TableCall.apply (σ : Heap × UserTable) : TableCall → Result (Heap × UserTable)
  | .addUser username password =>
    SocksProxy.addUser σ.1 σ.2 (some (username ++ [0])) (some (password ++ [0]))
  | .deleteUser username => SocksProxy.deleteUser σ.1 σ.2 (some (username ++ [0]))

/-- The list is appended to while it has room, and loses the first account of a name. -/
def TableCall.listed (accounts : List Account) : TableCall → List Account
  | .addUser username password =>
    if maxUsers ≤ accounts.length then accounts
    else accounts ++ [⟨chars username, chars password⟩]
  | .deleteUser username => accounts.eraseP (named username)

/-- The blocks that are live before a call and not after it. -/
def freedBy (σ τ : Heap × UserTable) : List Nat :=
  (List.range σ.1.next).filter fun b => (σ.1.block b).isSome && (τ.1.block b).isNone

/-- The calls one after another, with the blocks they freed. -/
def runCalls : List TableCall → Heap × UserTable → Result (List Nat × Heap × UserTable)
  | [], σ => .ok ([], σ)
  | call :: calls, σ => do
    let τ ← call.apply σ
    let (freed, υ) ← runCalls calls τ
    .ok (freedBy σ τ ++ freed, υ)

/-- What was freed and what is in the table is what was there and what is new. -/
structure Ledger (σ : Heap × UserTable) (ptrs : List (Nat × Nat)) (freed : List Nat)
    (τ : Heap × UserTable) (ptrs' : List (Nat × Nat)) : Prop where
  grows : σ.1.next ≤ τ.1.next
  balance : (freed ++ blocks ptrs').Perm
    (blocks ptrs ++ List.range' σ.1.next (τ.1.next - σ.1.next))

section
variable {σ τ υ : Heap × UserTable} {ptrs ptrs' ptrs'' : List (Nat × Nat)}
  {accounts : List Account} {freed freed' : List Nat} {call : TableCall}

theorem mem_freedBy (b : Nat) :
    b ∈ freedBy σ τ ↔ b < σ.1.next ∧ σ.1.block b ≠ none ∧ τ.1.block b = none := by
  simp [freedBy, Option.isSome_iff_ne_none]

theorem freedBy_nodup (σ τ : Heap × UserTable) : (freedBy σ τ).Nodup :=
  List.nodup_range.filter _

/-- Nothing is freed where every live block stays. -/
theorem freedBy_kept (kept : ∀ b < σ.1.next, τ.1.block b = σ.1.block b) : freedBy σ τ = [] := by
  apply List.eq_nil_iff_forall_not_mem.mpr
  intro b member
  obtain ⟨old, live, gone⟩ := (mem_freedBy b).mp member
  exact live ((kept b old).symm.trans gone)

theorem Ledger.refl (σ : Heap × UserTable) (ptrs : List (Nat × Nat)) : Ledger σ ptrs [] σ ptrs := by
  constructor
  · exact Nat.le_refl _
  · rw [Nat.sub_self, List.range'_zero, List.append_nil, List.nil_append]

theorem Ledger.trans (first : Ledger σ ptrs freed τ ptrs')
    (second : Ledger τ ptrs' freed' υ ptrs'') : Ledger σ ptrs (freed ++ freed') υ ptrs'' := by
  have low := first.grows
  have high := second.grows
  constructor
  · exact Nat.le_trans low high
  · have new : List.range' σ.1.next (τ.1.next - σ.1.next) ++
        List.range' τ.1.next (υ.1.next - τ.1.next) =
        List.range' σ.1.next (υ.1.next - σ.1.next) := by
      have from' : σ.1.next + 1 * (τ.1.next - σ.1.next) = τ.1.next := by omega
      have total : τ.1.next - σ.1.next + (υ.1.next - τ.1.next) = υ.1.next - σ.1.next := by omega
      rw [← total, ← List.range'_append, from']
    rw [← new]
    have later := second.balance.append_left freed
    rw [← List.append_assoc, ← List.append_assoc] at later
    have earlier := first.balance.append_right (List.range' τ.1.next (υ.1.next - τ.1.next))
    simpa only [List.append_assoc] using later.trans earlier

/-- No string is freed twice, and none of the table is freed. -/
theorem Ledger.once (h : Tabled σ.1 σ.2 ptrs accounts) (ledger : Ledger σ ptrs freed τ ptrs') :
    (freed ++ blocks ptrs').Nodup := by
  rw [ledger.balance.nodup_iff, List.nodup_append]
  refine ⟨h.distinct, List.nodup_range', ?_⟩
  rintro b member b' new rfl
  have old := h.old member
  have late := (List.mem_range'_1.mp new).1
  omega

theorem appendUser_ledger (name pass : List UInt8) :
    Ledger σ ptrs (freedBy σ (appendUser σ.1 σ.2 name pass)) (appendUser σ.1 σ.2 name pass)
      (ptrs ++ [(σ.1.next, σ.1.next + 1)]) := by
  have kept : ∀ b < σ.1.next, (appendUser σ.1 σ.2 name pass).1.block b = σ.1.block b := by
    intro b old
    simp [appendUser, Heap.strdup, Function.update_of_ne (by omega : b ≠ σ.1.next),
      Function.update_of_ne (by omega : b ≠ σ.1.next + 1)]
  have next : (appendUser σ.1 σ.2 name pass).1.next = σ.1.next + 2 := rfl
  constructor
  · omega
  · rw [freedBy_kept kept, next, Nat.add_sub_cancel_left, blocks_append, List.nil_append]
    exact List.Perm.refl _

/-- A deletion frees the two strings of the slot that goes. -/
theorem deleteUser_ledger (h : Tabled σ.1 σ.2 ptrs accounts)
    {left : List Account} (h' : Tabled τ.1 τ.2 ptrs' left)
    (removed : Removed σ.1 σ.2.slots 0 ptrs left τ.1 τ.2.slots ptrs') :
    Ledger σ ptrs (freedBy σ τ) τ ptrs' := by
  have sub : (blocks ptrs').Sublist (blocks ptrs) := removed.sub.flatMap _
  have next := removed.next
  constructor
  · omega
  · rw [next, Nat.sub_self, List.range'_zero, List.append_nil]
    apply (List.perm_ext_iff_of_nodup ?_ h.distinct).mpr
    · intro b
      rw [List.mem_append, mem_freedBy]
      constructor
      · rintro (⟨old, live, gone⟩ | stays)
        · by_contra out
          exact live ((removed.elsewhere b out).symm.trans gone)
        · exact sub.subset stays
      · intro member
        by_cases stays : b ∈ blocks ptrs'
        · exact Or.inr stays
        · exact Or.inl ⟨h.old member, stored_live h.stored member, removed.gone b member stays⟩
    · rw [List.nodup_append]
      refine ⟨freedBy_nodup σ τ, h'.distinct, ?_⟩
      rintro b gone b' stays rfl
      exact stored_live h'.stored stays ((mem_freedBy b).mp gone).2.2

/-- A call goes through, and does to the table what it does to the list. -/
theorem call_listed (call : TableCall) (h : Tabled σ.1 σ.2 ptrs accounts)
    (few : σ.2.nusers ≤ maxUsers) :
    ∃ τ ptrs', call.apply σ = .ok τ ∧ Tabled τ.1 τ.2 ptrs' (call.listed accounts) ∧
      τ.2.nusers ≤ maxUsers ∧ Ledger σ ptrs (freedBy σ τ) τ ptrs' := by
  have count := h.length
  have many := h.stored.length_eq
  cases call with
  | addUser username password =>
    by_cases room : σ.2.nusers < maxUsers
    · refine ⟨_, _, addUser_append username password room, ?_, room, appendUser_ledger ..⟩
      rw [TableCall.listed, if_neg (by omega)]
      exact appendUser_tabled _ _ h (chars_chars _) (chars_chars _)
    · have full : (TableCall.addUser username password).apply σ = .ok σ := by
        rw [TableCall.apply, addUser, if_pos (Nat.le_of_not_lt room)]
      have none : freedBy σ σ = [] := freedBy_kept fun _ _ => rfl
      refine ⟨σ, ptrs, full, ?_, few, none ▸ .refl σ ptrs⟩
      rwa [TableCall.listed, if_pos (by omega)]
  | deleteUser username =>
    obtain ⟨heap', t', ptrs', ran, tabled, removed⟩ := deleteUser_spec username h
    refine ⟨(heap', t'), ptrs', ran, tabled, ?_, deleteUser_ledger h tabled removed⟩
    have fewer := List.length_eraseP_le (l := accounts) (p := named username)
    have count' := tabled.length
    have many' := tabled.stored.length_eq
    simp only at count' ⊢
    omega

theorem calls_listed (calls : List TableCall) (h : Tabled σ.1 σ.2 ptrs accounts)
    (few : σ.2.nusers ≤ maxUsers) :
    ∃ freed τ ptrs', runCalls calls σ = .ok (freed, τ) ∧
      Tabled τ.1 τ.2 ptrs' (calls.foldl TableCall.listed accounts) ∧ τ.2.nusers ≤ maxUsers ∧
      Ledger σ ptrs freed τ ptrs' := by
  induction calls generalizing σ ptrs accounts with
  | nil => exact ⟨[], σ, ptrs, rfl, h, few, .refl σ ptrs⟩
  | cons call calls ih =>
    obtain ⟨τ, ptrs', ran, tabled, few', ledger⟩ := call_listed call h few
    obtain ⟨freed, υ, ptrs'', ran', tabled', few'', ledger'⟩ := ih tabled few'
    refine ⟨freedBy σ τ ++ freed, υ, ptrs'', ?_, tabled', few'', ledger.trans ledger'⟩
    simp only [runCalls, ran, ran', ok_bind]

/-- From every table of at most `maxUsers` slots, every sequence of calls leaves the
slots of the list. No string is freed twice or while a slot has it. -/
theorem table_refines_list (calls : List TableCall) (h : Tabled σ.1 σ.2 ptrs accounts)
    (few : σ.2.nusers ≤ maxUsers) :
    ∃ freed τ ptrs', runCalls calls σ = .ok (freed, τ) ∧
      Tabled τ.1 τ.2 ptrs' (calls.foldl TableCall.listed accounts) ∧ τ.2.nusers ≤ maxUsers ∧
      (freed ++ blocks ptrs').Nodup ∧
      (freed ++ blocks ptrs').Perm
        (blocks ptrs ++ List.range' σ.1.next (τ.1.next - σ.1.next)) := by
  obtain ⟨freed, τ, ptrs', ran, tabled, few', ledger⟩ := calls_listed calls h few
  exact ⟨freed, τ, ptrs', ran, tabled, few', ledger.once h, ledger.balance⟩

/-- `u:p`, `v:q` and `u:r` are added and `u` is deleted, which takes `u:p` out. -/
theorem table_refines_list_three : ∃ freed τ ptrs',
    runCalls [.addUser [117] [112], .addUser [118] [113], .addUser [117] [114], .deleteUser [117]]
      noUsers = .ok (freed, τ) ∧
    Tabled τ.1 τ.2 ptrs' [⟨[118], [113]⟩, ⟨[117], [114]⟩] ∧ τ.2.nusers ≤ maxUsers ∧
    (freed ++ blocks ptrs').Nodup ∧ (freed ++ blocks ptrs').Perm (List.range' 0 τ.1.next) :=
  table_refines_list
    [.addUser [117] [112], .addUser [118] [113], .addUser [117] [114], .deleteUser [117]]
    noUsers_tabled (Nat.zero_le _)

end

end SocksProxy
