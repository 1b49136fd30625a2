import SocksProxy.Dispatch
import Mathlib.Order.Bounds.Basic

/-!
# selector.c: the slots, the master sets and the largest descriptor

`handle_close` does what it likes to the rest of the program, and does not call
the selector back.
-/

namespace SocksProxy

/-- A call, and the outcome of the allocation it may need. -/
inductive SlotCall
  | register (fd : Int) (handler : Option FdHandler) (interest : FdInterest) (data : Nat)
      (alloc : Bool)
  | unregister (fd : Int)
  | setInterest (fd : Int) (interest : FdInterest)

def SlotCall.fd : SlotCall → Int
  | .register fd .. | .unregister fd | .setInterest fd _ => fd

/-- A `NULL` handler is refused like an invalid descriptor. -/
def SlotCall.run {κ : Type} (close : Item → κ → κ) (s : FdSelector × κ) :
    SlotCall → SelectorStatus × FdSelector × κ
  | .register _ none _ _ _ => (.iargs, s)
  | .register fd (some handler) interest data alloc =>
    let r := selectorRegister s.1 fd handler interest data alloc
    (r.1, r.2, s.2)
  | .unregister fd => selectorUnregisterFd close s.1 s.2 fd
  | .setInterest fd interest =>
    let r := selectorSetInterest s.1 fd interest
    (r.1, r.2, s.2)

/-- After `selector_new` and any calls with descriptors below `fd_size`. -/
inductive Slotted {κ : Type} (close : Item → κ → κ) : FdSelector × κ → Prop
  | new (initialElements : Nat) (alloc : Bool) (k : κ) :
      (selectorNew initialElements alloc).1 = .success →
      Slotted close ((selectorNew initialElements alloc).2, k)
  | call {s : FdSelector × κ} (c : SlotCall) :
      Slotted close s → c.fd < s.1.fdSize → Slotted close (c.run close s).2

/-- The slots, the master sets and the largest descriptor agree. -/
structure FdSelector.Consistent (s : FdSelector) : Prop where
  own : ∀ fd, (s.fds fd).fd = fdUnused ∨ (s.fds fd).fd = fd
  master : ∀ op fd, s.master op fd = true ↔
    (s.fds fd).used = true ∧ (s.fds fd).interest.has op = true
  maxFd : (∃ fd, (s.fds fd).used = true) → IsGreatest {fd | (s.fds fd).used = true} s.maxFd
  noFd : (∀ fd, (s.fds fd).used = false) → s.maxFd = 0

section
variable {s s' : FdSelector} {fd : Int} {item : Item}

/-- What a call keeps besides. -/
structure FdSelector.Kept (s : FdSelector) : Prop where
  consistent : s.Consistent
  valid : ∀ fd, (s.fds fd).used = true → invalidFd fd = false

theorem valid_low (valid : invalidFd fd = false) : 0 ≤ fd := by
  simp only [invalidFd, decide_eq_false_iff_not] at valid
  omega

theorem FdSelector.Consistent.own_used (consistent : s.Consistent)
    (used : (s.fds fd).used = true) : (s.fds fd).fd = fd := by
  rcases consistent.own fd with free | own
  · exact absurd free (of_decide_eq_true used)
  · exact own

/-- The scan of `items_max_fd` over the slots below `n`. -/
def largestBelow (fds : Int → Item) (n : Nat) : Int :=
  (List.range n).foldl (fun (max : Int) (i : Nat) =>
    if (fds i).used ∧ (fds i).fd > max then (fds i).fd else max) 0

theorem largestBelow_succ (fds : Int → Item) (n : Nat) : largestBelow fds (n + 1) =
    if (fds n).used ∧ (fds n).fd > largestBelow fds n then (fds n).fd else largestBelow fds n := by
  simp [largestBelow, List.range_succ]

theorem largestBelow_finds (fds : Int → Item) (own : ∀ fd, (fds fd).used = true → (fds fd).fd = fd)
    (n : Nat) : (∀ i : Nat, i < n → (fds i).used = true → (i : Int) ≤ largestBelow fds n) ∧
      (largestBelow fds n = 0 ∨ (fds (largestBelow fds n)).used = true) := by
  induction n with
  | zero => exact ⟨fun i small => absurd small (Nat.not_lt_zero i), .inl rfl⟩
  | succ n ih =>
    obtain ⟨above, found⟩ := ih
    rw [largestBelow_succ]
    split
    · rename_i larger
      have here := own n larger.1
      rw [here] at larger ⊢
      refine ⟨fun i small used => ?_, .inr larger.1⟩
      omega
    · rename_i smaller
      refine ⟨fun i small used => ?_, found⟩
      by_cases last : i = n
      · subst last
        have here := own i used
        have : ¬(fds i).fd > largestBelow fds i := fun more => smaller ⟨used, more⟩
        omega
      · exact above i (by omega) used

theorem itemsMaxFd_greatest (own : ∀ fd, (s.fds fd).used = true → (s.fds fd).fd = fd)
    (range : ∀ fd, (s.fds fd).used = true → 0 ≤ fd ∧ fd ≤ s.maxFd) :
    ((∃ fd, (s.fds fd).used = true) → IsGreatest {fd | (s.fds fd).used = true} (itemsMaxFd s)) ∧
      ((∀ fd, (s.fds fd).used = false) → itemsMaxFd s = 0) := by
  obtain ⟨above, found⟩ := largestBelow_finds s.fds own (s.maxFd + 1).toNat
  have upper : ∀ fd, (s.fds fd).used = true → fd ≤ itemsMaxFd s := by
    intro fd used
    obtain ⟨nonneg, most⟩ := range fd used
    have place : ((fd.toNat : Nat) : Int) = fd := Int.toNat_of_nonneg nonneg
    rw [← place]
    exact above fd.toNat (by omega) (place.symm ▸ used)
  constructor
  · rintro ⟨fd, used⟩
    refine ⟨?_, fun f => upper f⟩
    rcases found with zero | here
    · -- the largest is 0, so the one in use is 0
      have most := upper fd used
      have nonneg := (range fd used).1
      have : fd = itemsMaxFd s := by
        rw [show itemsMaxFd s = 0 from zero] at most ⊢
        omega
      exact this ▸ used
    · exact here
  · intro none
    rcases found with zero | here
    · exact zero
    · exact absurd (here.symm.trans (none _)) (by decide)

/-- One slot is replaced and its two bits follow. -/
theorem replaced_master (consistent : s.Consistent) (slots : s'.fds = Function.update s.fds fd item)
    (follow : ∀ op, s'.master op =
      Function.update (s.master op) fd (item.used && item.interest.has op)) (op : Op) (f : Int) :
    s'.master op f = true ↔ (s'.fds f).used = true ∧ (s'.fds f).interest.has op = true := by
  rw [slots, follow]
  by_cases here : f = fd
  · subst here
    simp
  · simp only [Function.update_of_ne here]
    exact consistent.master op f

theorem replaced_own (consistent : s.Consistent) (slots : s'.fds = Function.update s.fds fd item)
    (own : item.fd = fdUnused ∨ item.fd = fd) (f : Int) :
    (s'.fds f).fd = fdUnused ∨ (s'.fds f).fd = f := by
  rw [slots]
  by_cases here : f = fd
  · subst here
    simpa using own
  · simp only [Function.update_of_ne here]
    exact consistent.own f

/-- A slot is filled: the largest is the new descriptor or the one it was. -/
theorem registered_greatest (consistent : s.Consistent) (low : 0 ≤ fd) (used : item.used = true) :
    IsGreatest {f | (Function.update s.fds fd item f).used = true}
      (if fd > s.maxFd then fd else s.maxFd) := by
  have new : (Function.update s.fds fd item fd).used = true := by simpa using used
  have old : ∀ f, (s.fds f).used = true → (Function.update s.fds fd item f).used = true := by
    intro f before
    by_cases same : f = fd
    · exact same ▸ new
    · simpa [same] using before
  have cases : ∀ f, (Function.update s.fds fd item f).used = true →
      f = fd ∨ (s.fds f).used = true := by
    intro f after
    by_cases same : f = fd
    · exact .inl same
    · exact .inr (by simpa [same] using after)
  by_cases any : ∃ f, (s.fds f).used = true
  · obtain ⟨top, above⟩ := consistent.maxFd any
    constructor
    · split
      · exact new
      · exact old _ top
    · intro f after
      rcases cases f after with rfl | before
      · split <;> omega
      · have := above before
        split <;> omega
  · have none : ∀ f, (s.fds f).used = false := fun f => by
      simpa using not_exists.mp any f
    have zero := consistent.noFd none
    have largest : (if fd > s.maxFd then fd else s.maxFd) = fd := by
      split <;> omega
    rw [largest]
    refine ⟨new, fun f after => ?_⟩
    rcases cases f after with rfl | before
    · exact Int.le_refl _
    · exact absurd (before.symm.trans (none f)) (by decide)

theorem new_kept (initialElements : Nat) (alloc : Bool) :
    (selectorNew initialElements alloc).2.Kept := by
  have empty : ∀ fd, ((selectorNew initialElements alloc).2.fds fd) = itemInit := by
    intro fd
    unfold selectorNew ensureCapacity itemsInit
    grind
  have unset : ∀ op fd, (selectorNew initialElements alloc).2.master op fd = false := by
    intro op fd
    unfold selectorNew ensureCapacity
    cases op <;> simp only [FdSelector.master] <;> grind
  have zero : (selectorNew initialElements alloc).2.maxFd = 0 := by
    unfold selectorNew ensureCapacity
    grind
  refine ⟨⟨fun fd => ?_, fun op fd => ?_, ?_, fun _ => zero⟩, fun fd used => ?_⟩
  · rw [empty]
    exact .inl rfl
  · rw [unset, empty]
    simp
  · rintro ⟨fd, used⟩
    rw [empty] at used
    cases used
  · rw [empty] at used
    cases used

/-- What a call may do to the table. -/
structure Effect (fd : Int) (status : SelectorStatus) (s s' : FdSelector) : Prop where
  kept : s'.Kept
  others : ∀ f, f ≠ fd → s'.fds f = s.fds f
  failed : status ≠ .success → s' = s

theorem Effect.refused {status : SelectorStatus} (kept : s.Kept) : Effect fd status s s :=
  ⟨kept, fun _ _ => rfl, fun _ => rfl⟩

theorem register_effect (kept : s.Kept) (inside : fd < s.fdSize) (handler : FdHandler)
    (interest : FdInterest) (data : Nat) (alloc : Bool) :
    Effect fd (selectorRegister s fd handler interest data alloc).1 s
      (selectorRegister s fd handler interest data alloc).2 := by
  have room : ¬fd > s.fdSize := by omega
  unfold selectorRegister
  split
  · exact .refused kept
  · rename_i invalid
    have valid : invalidFd fd = false := by simpa using invalid
    simp only [ne_eq, not_true_eq_false, if_false]
    split
    · exact .refused kept
    · rename_i taken
      have free : (s.fds fd).used = false := by simpa using taken
      have low := valid_low valid
      have used : Item.used ⟨fd, interest, handler, data⟩ = true := by
        refine decide_eq_true fun free => ?_
        have : fd = -1 := free
        omega
      refine ⟨⟨⟨?_, ?_, fun _ => ?_, fun none => ?_⟩, fun f here => ?_⟩, fun f other => ?_,
        fun failed => absurd rfl failed⟩
      · exact replaced_own kept.consistent rfl (.inr rfl)
      · exact replaced_master kept.consistent rfl fun op => itemsUpdate_master _
      · exact registered_greatest kept.consistent low used
      · have here := none fd
        simp only [itemsUpdate_fds, Function.update_self] at here
        exact absurd (used.symm.trans here) (by decide)
      · by_cases same : f = fd
        · exact same ▸ valid
        · simp only [itemsUpdate_fds, Function.update_of_ne same] at here
          exact kept.valid f here
      · simp [other]

/-- The slot of `fd` is free and its bits are clear; `max_fd` is the old one. -/
def FdSelector.wiped (s : FdSelector) (fd : Int) : FdSelector :=
  { s with
    fds := Function.update s.fds fd itemInit
    masterR := Function.update s.masterR fd false
    masterW := Function.update s.masterW fd false }

theorem unregister_wiped {κ : Type} (close : Item → κ → κ) (k : κ) (registered : s.Registered fd)
    (own : (s.fds fd).fd = fd) : (selectorUnregisterFd close s k fd).2.1 =
      { s.wiped fd with maxFd := itemsMaxFd (s.wiped fd) } := by
  unfold selectorUnregisterFd
  simp only [registered.1, registered.2, Bool.false_eq_true, if_true, if_false]
  simp [itemsUpdateFdsetForFd, own, opNoop, FdSelector.wiped]

theorem wiped_kept (kept : s.Kept) :
    { s.wiped fd with maxFd := itemsMaxFd (s.wiped fd) }.Kept := by
  have before : ∀ f, ((s.wiped fd).fds f).used = true → (s.fds f).used = true := by
    intro f now
    by_cases same : f = fd
    · subst same
      simp [FdSelector.wiped] at now
    · simpa [FdSelector.wiped, same] using now
  have owns : ∀ f, ((s.wiped fd).fds f).fd = fdUnused ∨ ((s.wiped fd).fds f).fd = f :=
    replaced_own kept.consistent rfl (.inl rfl)
  have range : ∀ f, ((s.wiped fd).fds f).used = true → 0 ≤ f ∧ f ≤ (s.wiped fd).maxFd := by
    intro f now
    have used := before f now
    exact ⟨valid_low (kept.valid f used), (kept.consistent.maxFd ⟨f, used⟩).2 used⟩
  obtain ⟨greatest, none⟩ := itemsMaxFd_greatest
    (fun f now => (owns f).resolve_left (of_decide_eq_true now)) range
  refine ⟨⟨owns, ?_, greatest, none⟩, fun f now => kept.valid f (before f now)⟩
  exact replaced_master kept.consistent rfl fun op => by cases op <;> rfl

theorem unregister_effect {κ : Type} (close : Item → κ → κ) (k : κ) (kept : s.Kept) :
    Effect fd (selectorUnregisterFd close s k fd).1 s (selectorUnregisterFd close s k fd).2.1 := by
  obtain ⟨status, slots, -⟩ := unregister_eq close s k fd
  by_cases registered : s.Registered fd
  · rw [if_pos registered] at status slots
    refine ⟨?_, fun f other => ?_, fun failed => absurd status failed⟩
    · rw [unregister_wiped close k registered (kept.consistent.own_used registered.2)]
      exact wiped_kept kept
    · rw [slots, Function.update_of_ne other]
  · rw [unregister_refused close k registered]
    exact .refused kept

theorem setInterest_effect (kept : s.Kept) (interest : FdInterest) :
    Effect fd (selectorSetInterest s fd interest).1 s (selectorSetInterest s fd interest).2 := by
  unfold selectorSetInterest
  split
  · exact .refused kept
  · split
    · rename_i used
      have own := kept.consistent.own_used used
      have same : ∀ f, (Function.update s.fds fd { s.fds fd with interest } f).used =
          (s.fds f).used := by
        intro f
        by_cases here : f = fd
        · subst here
          simp [Item.used]
        · simp [here]
      refine ⟨⟨⟨?_, ?_, ?_, ?_⟩, ?_⟩, fun f other => ?_, fun failed => absurd rfl failed⟩
      · exact replaced_own kept.consistent rfl (.inr own)
      · refine replaced_master kept.consistent rfl fun op => ?_
        rw [itemsUpdate_master, own]
        rfl
      · simp only [itemsUpdate_fds, same]
        exact kept.consistent.maxFd
      · simp only [itemsUpdate_fds, same]
        exact kept.consistent.noFd
      · simp only [itemsUpdate_fds, same]
        exact kept.valid
      · simp [other]
    · exact .refused kept

theorem call_effect {κ : Type} (close : Item → κ → κ) {s : FdSelector × κ} (kept : s.1.Kept)
    (c : SlotCall) (inside : c.fd < s.1.fdSize) :
    Effect c.fd (c.run close s).1 s.1 (c.run close s).2.1 := by
  cases c with
  | register fd handler interest data alloc =>
    cases handler with
    | none => exact .refused kept
    | some handler => exact register_effect kept inside handler interest data alloc
  | unregister fd => exact unregister_effect close s.2 kept
  | setInterest fd interest => exact setInterest_effect kept interest

theorem slotted_kept {κ : Type} {close : Item → κ → κ} {s : FdSelector × κ}
    (slotted : Slotted close s) : s.1.Kept := by
  induction slotted with
  | new initialElements alloc k _ => exact new_kept initialElements alloc
  | call c _ inside ih => exact (call_effect close ih c inside).kept

/-- After any calls within the array, one more leaves the views of the table in
agreement and the slots of the other descriptors as they were; if it fails it
leaves everything. -/
theorem call_consistent {κ : Type} {close : Item → κ → κ} {s : FdSelector × κ}
    (slotted : Slotted close s) (c : SlotCall) (inside : c.fd < s.1.fdSize) :
    (c.run close s).2.1.Consistent ∧
      (∀ fd, fd ≠ c.fd → (c.run close s).2.1.fds fd = s.1.fds fd) ∧
      ((c.run close s).1 ≠ .success → (c.run close s).2.1 = s.1) := by
  have effect := call_effect close (slotted_kept slotted) c inside
  exact ⟨effect.kept.consistent, effect.others, effect.failed⟩

/-- The descriptor of the largest registration is unregistered. -/
theorem call_consistent_unregister :
    let s := (selectorNew 5 true).2
    let t := ((SlotCall.register 3 (some .socks5) opRead 7 true).run (fun _ k => k + 1) (s, 0)).2
    let r := (SlotCall.unregister 3).run (fun _ k => k + 1) t
    r.2.1.Consistent ∧ (∀ fd, fd ≠ 3 → r.2.1.fds fd = t.1.fds fd) ∧
      (r.1 ≠ .success → r.2.1 = t.1) := by
  intro s t r
  have new : Slotted (fun _ k => k + 1) (s, 0) := .new 5 true 0 (by decide)
  have slotted : Slotted (fun _ k => k + 1) t :=
    .call (.register 3 (some .socks5) opRead 7 true) new (by decide)
  exact call_consistent slotted (.unregister 3) (by decide)

end

end SocksProxy
