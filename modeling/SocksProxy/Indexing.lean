import SocksProxy.Lib.Throughout
import SocksProxy.Registrations

/-!
# selector.c: indices into the slot array

`selector_register` grows the array when `ufd > s->fd_size`; the other two calls
do not look at `fd_size`. Here every slot that a call reads or writes is looked up
in the array, and one past its end faults.
-/

namespace SocksProxy

open Lib

/-- `s->fds + fd`, if the array has it. -/
def FdSelector.slot (s : FdSelector) (fd : Int) : Result Item :=
  if 0 ≤ fd ∧ fd < s.fdSize then .ok (s.fds fd) else .error .outOfBounds

/-- The scan of `items_max_fd`. -/
def FdSelector.largest (s : FdSelector) : Result Int :=
  (List.range (s.maxFd + 1).toNat).foldlM (fun (max : Int) (i : Nat) => do
    let item ← s.slot i
    .ok (if item.used ∧ item.fd > max then item.fd else max)) 0

/-- A call on the array as it is allocated. -/
def SlotCall.exec {κ : Type} (close : Item → κ → κ) (s : FdSelector × κ) :
    SlotCall → Result (SelectorStatus × FdSelector × κ)
  | .register _ none _ _ _ => .ok (.iargs, s)
  | .register fd (some handler) interest data alloc =>
    if invalidFd fd then .ok (.iargs, s)
    else
      let (ret, t) := if fd > s.1.fdSize then ensureCapacity s.1 fd.toNat alloc else (.success, s.1)
      if ret ≠ .success then .ok (ret, t, s.2)
      else do
        let item ← t.slot fd
        if item.used then .ok (.fdinuse, t, s.2)
        else
          let item : Item := ⟨fd, interest, handler, data⟩
          let t := { t with
            fds := Function.update t.fds fd item
            maxFd := if fd > t.maxFd then fd else t.maxFd }
          .ok (.success, itemsUpdateFdsetForFd t item, s.2)
  | .unregister fd =>
    if invalidFd fd then .ok (.iargs, s)
    else do
      let item ← s.1.slot fd
      if item.used then
        let k := close item s.2
        let t := itemsUpdateFdsetForFd s.1 { item with interest := opNoop }
        let t := { t with fds := Function.update t.fds fd itemInit }
        let max ← t.largest
        .ok (.success, { t with maxFd := max }, k)
      else .ok (.iargs, s)
  | .setInterest fd i =>
    if invalidFd fd then .ok (.iargs, s)
    else do
      let item ← s.1.slot fd
      if item.used then
        let item := { item with interest := i }
        let t := { s.1 with fds := Function.update s.1.fds fd item }
        .ok (.success, itemsUpdateFdsetForFd t item, s.2)
      else .ok (.iargs, s)

/-- The indices into `s->fds` that a call uses, each with the `fd_size` at that time.
The last of `unregister` are those of `items_max_fd`. -/
def SlotCall.accesses (s : FdSelector) : SlotCall → List (Int × Nat)
  | .register _ none _ _ _ => []
  | .register fd (some _) _ _ alloc =>
    if invalidFd fd then []
    else
      let (ret, s) := if fd > s.fdSize then ensureCapacity s fd.toNat alloc else (.success, s)
      if ret ≠ .success then [] else [(fd, s.fdSize)]
  | .unregister fd =>
    if invalidFd fd then []
    else if (s.fds fd).used then
      (fd, s.fdSize) :: (List.range (s.maxFd + 1).toNat).map fun (i : Nat) => ((i : Int), s.fdSize)
    else [(fd, s.fdSize)]
  | .setInterest fd _ => if invalidFd fd then [] else [(fd, s.fdSize)]

/-- A call of a sequence, with what is left of the state after it. -/
abbrev SlotCall.next {κ : Type} (close : Item → κ → κ) (s : FdSelector × κ) (c : SlotCall) :
    FdSelector × κ :=
  (c.run close s).2

/-- The call uses slots of the array only, so it does not fault, and fails if the array
has none for it. -/
structure SlotCall.Contained {κ : Type} (close : Item → κ → κ) (s : FdSelector × κ)
    (c : SlotCall) : Prop where
  inside : ∀ a ∈ c.accesses s.1, 0 ≤ a.1 ∧ a.1 < a.2
  goes : c.exec close s = .ok (c.run close s)
  refused : ¬(0 ≤ c.fd ∧ c.fd < (c.run close s).2.1.fdSize) → (c.run close s).1 ≠ .success

/-- No registration of `fd_size` itself, and no other call past the end. -/
def SlotCall.Within (s : FdSelector) : SlotCall → Prop
  | .register fd handler _ _ _ => handler = none ∨ invalidFd fd = true ∨ fd ≠ s.fdSize
  | .unregister fd | .setInterest fd _ => invalidFd fd = true ∨ fd < s.fdSize

instance (s : FdSelector) : (c : SlotCall) → Decidable (c.Within s)
  | .register fd handler _ _ _ =>
    inferInstanceAs (Decidable (handler = none ∨ invalidFd fd = true ∨ fd ≠ s.fdSize))
  | .unregister fd | .setInterest fd _ =>
    inferInstanceAs (Decidable (invalidFd fd = true ∨ fd < s.fdSize))

section
variable {s : FdSelector} {fd : Int}

/-- What the calls that are `Within` keep. -/
structure FdSelector.Roomy (s : FdSelector) : Prop where
  sound : s.Sound
  low : 0 ≤ s.maxFd
  maxFd : s.maxFd < s.fdSize

/-- An array that has to grow is big enough afterwards, or the call fails. -/
theorem ensureCapacity_room {n : Nat} {alloc : Bool}
    (ret : (ensureCapacity s n alloc).1 = .success) : n < (ensureCapacity s n alloc).2.fdSize := by
  unfold ensureCapacity at ret ⊢
  split at ret
  · rename_i small
    rwa [if_pos small]
  · rename_i large
    split at ret
    · cases ret
    · rename_i fits
      split at ret
      · rename_i got
        simpa [large, fits, got] using nextCapacity_gt (Nat.le_of_not_lt fits)
      · cases ret

theorem ensureCapacity_maxFd (n : Nat) (alloc : Bool) :
    (ensureCapacity s n alloc).2.maxFd = s.maxFd := by
  unfold ensureCapacity
  split
  · rfl
  · split
    · rfl
    · split <;> rfl

theorem new_roomy {initialElements : Nat} {alloc : Bool}
    (made : (selectorNew initialElements alloc).1 = .success) :
    (selectorNew initialElements alloc).2.Roomy := by
  have zero : (selectorNew initialElements alloc).2.maxFd = 0 := ensureCapacity_maxFd _ _
  have room : initialElements < (selectorNew initialElements alloc).2.fdSize :=
    ensureCapacity_room made
  exact ⟨selectorNew_sound _ _, by omega, by omega⟩

/-- `ensure_capacity` as `selector_register` calls it. -/
def FdSelector.widened (s : FdSelector) (fd : Int) (alloc : Bool) : SelectorStatus × FdSelector :=
  if fd > s.fdSize then ensureCapacity s fd.toNat alloc else (.success, s)

theorem widened_size (valid : invalidFd fd = false) {alloc : Bool}
    (ret : (s.widened fd alloc).1 = .success) (other : fd ≠ s.fdSize) :
    fd < (s.widened fd alloc).2.fdSize := by
  have low := valid_low valid
  unfold FdSelector.widened at ret ⊢
  split at ret
  · rename_i more
    have room := ensureCapacity_room ret
    rw [if_pos more]
    omega
  · rename_i less
    rw [if_neg less]
    show fd < s.fdSize
    omega

theorem widened_maxFd (alloc : Bool) : (s.widened fd alloc).2.maxFd = s.maxFd := by
  unfold FdSelector.widened
  split
  · exact ensureCapacity_maxFd _ _
  · rfl

/-- The last part of `selector_register`. -/
def FdSelector.filled (s : FdSelector) (fd : Int) (item : Item) : FdSelector :=
  itemsUpdateFdsetForFd { s with
    fds := Function.update s.fds fd item
    maxFd := if fd > s.maxFd then fd else s.maxFd } item

theorem filled_fdSize (s : FdSelector) (fd : Int) (item : Item) :
    (s.filled fd item).fdSize = s.fdSize := rfl

theorem filled_maxFd (s : FdSelector) (fd : Int) (item : Item) :
    (s.filled fd item).maxFd = if fd > s.maxFd then fd else s.maxFd := rfl

variable {handler : FdHandler} {interest : FdInterest} {data : Nat} {alloc : Bool}

theorem register_widened (valid : invalidFd fd = false) :
    selectorRegister s fd handler interest data alloc =
      if (s.widened fd alloc).1 ≠ .success then s.widened fd alloc
      else if ((s.widened fd alloc).2.fds fd).used then (.fdinuse, (s.widened fd alloc).2)
      else (.success, (s.widened fd alloc).2.filled fd ⟨fd, interest, handler, data⟩) := by
  unfold selectorRegister
  rw [if_neg (by simp [valid])]
  rfl

theorem register_fdSize (valid : invalidFd fd = false) (handler : FdHandler)
    (interest : FdInterest) (data : Nat) :
    (selectorRegister s fd handler interest data alloc).2.fdSize =
      (s.widened fd alloc).2.fdSize := by
  rw [register_widened valid]
  split
  · rfl
  · split
    · rfl
    · exact filled_fdSize _ _ _

theorem register_success (valid : invalidFd fd = false)
    (success : (selectorRegister s fd handler interest data alloc).1 = .success) :
    (s.widened fd alloc).1 = .success := by
  by_contra failed
  rw [register_widened valid, if_pos failed] at success
  exact failed success

theorem register_maxFd (valid : invalidFd fd = false) :
    (selectorRegister s fd handler interest data alloc).2.maxFd = s.maxFd ∨
      (selectorRegister s fd handler interest data alloc).1 = .success ∧
        (selectorRegister s fd handler interest data alloc).2.maxFd = fd := by
  rw [register_widened valid]
  split
  · exact .inl (widened_maxFd alloc)
  · split
    · exact .inl (widened_maxFd alloc)
    · simp only [filled_maxFd, widened_maxFd]
      split
      · exact .inr ⟨trivial, rfl⟩
      · exact .inl rfl

theorem register_roomy (roomy : s.Roomy) (valid : invalidFd fd = false) (other : fd ≠ s.fdSize) :
    (selectorRegister s fd handler interest data alloc).2.Roomy := by
  obtain ⟨g, grown, result⟩ := register_cases roomy.sound fd handler interest data alloc
  have larger : s.fdSize ≤ (selectorRegister s fd handler interest data alloc).2.fdSize := by
    rcases result with ⟨-, same⟩ | ⟨-, -, -, top, same⟩
    · rw [same]
      exact grown.size
    · rw [same]
      exact grown.size
  have fits : (selectorRegister s fd handler interest data alloc).1 = .success →
      fd < (selectorRegister s fd handler interest data alloc).2.fdSize := by
    intro success
    rw [register_fdSize valid handler interest data]
    exact widened_size valid (register_success valid success) other
  have low := roomy.low
  have most := roomy.maxFd
  constructor
  · by_cases success : (selectorRegister s fd handler interest data alloc).1 = .success
    · have inside : ¬(selectorRegister s fd handler interest data alloc).2.outside fd = true := by
        have := fits success
        simp only [FdSelector.outside, valid, Bool.not_false, Bool.true_and, decide_eq_true_eq]
        omega
      have applied := apply_applied (t := ⟨s, 0, fun _ => 0⟩) roomy.sound
        (c := .register fd handler interest data alloc) (by
          simp only [SelectorCall.apply, if_pos success, if_neg inside]
          rfl)
      exact applied.sound
    · have applied := apply_applied (t := ⟨s, 0, fun _ => 0⟩) roomy.sound
        (c := .register fd handler interest data alloc) (by
          simp only [SelectorCall.apply, if_neg success]
          rfl)
      exact applied.sound
  · rcases register_maxFd valid with same | ⟨-, same⟩
    · rw [same]
      exact low
    · rw [same]
      exact valid_low valid
  · rcases register_maxFd valid with same | ⟨success, same⟩
    · rw [same]
      omega
    · rw [same]
      exact fits success

theorem largestBelow_low (fds : Int → Item) (n : Nat) : 0 ≤ largestBelow fds n := by
  induction n with
  | zero => exact Int.le_refl 0
  | succ n ih =>
    rw [largestBelow_succ]
    split
    · omega
    · exact ih

theorem itemsMaxFd_inside (sound : s.Sound) (some : 0 < s.fdSize) :
    0 ≤ itemsMaxFd s ∧ itemsMaxFd s < s.fdSize := by
  refine ⟨largestBelow_low s.fds _, ?_⟩
  obtain ⟨-, zero | used⟩ := largestBelow_finds s.fds sound.own (s.maxFd + 1).toNat
  · rw [show itemsMaxFd s = 0 from zero]
    omega
  · exact sound.bound _ used

theorem unregister_roomy {κ : Type} (close : Item → κ → κ) (k : κ) (roomy : s.Roomy)
    (inside : ¬s.outside fd = true) : (selectorUnregisterFd close s k fd).2.1.Roomy := by
  have low := roomy.low
  have most := roomy.maxFd
  by_cases registered : s.Registered fd
  · have own := roomy.sound.own fd registered.2
    have applied := apply_applied (t := ⟨s, 0, fun _ => 0⟩) roomy.sound
      (c := .unregister fd) (by
        simp only [SelectorCall.apply, if_neg inside]
        rfl)
    have after := applied.sound
    simp only [unregister_wiped _ () registered own] at after
    rw [unregister_wiped close k registered own]
    have sound : (s.wiped fd).Sound := by
      refine ⟨after.own, after.bound, after.idle, fun op fd => ?_⟩
      rw [← after.master op fd]
      cases op <;> rfl
    obtain ⟨least, greatest⟩ := itemsMaxFd_inside sound (show 0 < s.fdSize by omega)
    exact ⟨after, least, greatest⟩
  · rw [unregister_refused close k registered]
    exact roomy

theorem setInterest_roomy (roomy : s.Roomy) (inside : ¬s.outside fd = true) :
    (selectorSetInterest s fd interest).2.Roomy := by
  have applied := apply_applied (t := ⟨s, 0, fun _ => 0⟩) roomy.sound
    (c := .setInterest fd interest) (by simp only [SelectorCall.apply, if_neg inside]; rfl)
  have size := setInterest_fdSize s fd interest
  have maxFd : (selectorSetInterest s fd interest).2.maxFd = s.maxFd := by
    unfold selectorSetInterest
    split
    · rfl
    · split <;> rfl
  refine ⟨applied.sound, ?_, ?_⟩
  · rw [maxFd]
    exact roomy.low
  · rw [maxFd, size]
    exact roomy.maxFd

theorem within_inside (within : invalidFd fd = true ∨ fd < s.fdSize) : ¬s.outside fd = true := by
  rintro outside
  simp only [FdSelector.outside, Bool.and_eq_true, decide_eq_true_eq, Bool.not_eq_true'] at outside
  rcases within with invalid | inside
  · exact absurd (invalid.symm.trans outside.1) (by decide)
  · omega

theorem within_roomy {κ : Type} (close : Item → κ → κ) {s : FdSelector × κ} (roomy : s.1.Roomy)
    (c : SlotCall) (within : c.Within s.1) : (c.next close s).1.Roomy := by
  cases c with
  | register fd handler interest data alloc =>
    cases handler with
    | none => exact roomy
    | some handler =>
      rcases within with none | invalid | other
      · cases none
      · simp only [SlotCall.next, SlotCall.run, selectorRegister, if_pos invalid]
        exact roomy
      · by_cases invalid : invalidFd fd = true
        · simp only [SlotCall.next, SlotCall.run, selectorRegister, if_pos invalid]
          exact roomy
        · exact register_roomy roomy (by simpa using invalid) other
  | unregister fd => exact unregister_roomy close s.2 roomy (within_inside within)
  | setInterest fd interest => exact setInterest_roomy roomy (within_inside within)

theorem register_accesses (valid : invalidFd fd = false) :
    (SlotCall.register fd (some handler) interest data alloc).accesses s =
      if (s.widened fd alloc).1 = .success then [(fd, (s.widened fd alloc).2.fdSize)] else [] := by
  have unfolded : (SlotCall.register fd (some handler) interest data alloc).accesses s =
      if invalidFd fd then []
      else if (s.widened fd alloc).1 ≠ .success then [] else [(fd, (s.widened fd alloc).2.fdSize)] :=
    rfl
  rw [unfolded, if_neg (by simp [valid]), ite_not]

theorem unregister_accesses (valid : invalidFd fd = false) :
    (SlotCall.unregister fd).accesses s = (fd, s.fdSize) ::
      if (s.fds fd).used then
        (List.range (s.maxFd + 1).toNat).map fun (i : Nat) => ((i : Int), s.fdSize)
      else [] := by
  simp only [SlotCall.accesses, valid, Bool.false_eq_true, if_false]
  split <;> rfl

theorem slot_inside (low : 0 ≤ fd) (high : fd < s.fdSize) : s.slot fd = .ok (s.fds fd) :=
  if_pos ⟨low, high⟩

theorem slot_past (past : ¬fd < s.fdSize) : s.slot fd = .error .outOfBounds :=
  if_neg fun inside => past inside.2

theorem scan_eq (s : FdSelector) (slots : List Nat) (max : Int) :
    (slots.foldlM (fun (max : Int) (i : Nat) => do
      let item ← s.slot i
      .ok (if item.used ∧ item.fd > max then item.fd else max)) max : Result Int) =
    if ∀ i ∈ slots, ((i : Nat) : Int) < s.fdSize then
      .ok (slots.foldl (fun (max : Int) (i : Nat) =>
        if (s.fds i).used ∧ (s.fds i).fd > max then (s.fds i).fd else max) max)
    else .error .outOfBounds := by
  induction slots generalizing max with
  | nil => rfl
  | cons i slots ih =>
    rw [List.foldlM_cons]
    by_cases here : (i : Int) < s.fdSize
    · simp only [slot_inside (Int.natCast_nonneg i) here, ok_bind, List.foldl_cons,
        List.forall_mem_cons, here, true_and]
      exact ih _
    · simp only [slot_past here, error_bind, List.forall_mem_cons, here, false_and, if_false]

theorem largest_inside (inside : ∀ i ∈ List.range (s.maxFd + 1).toNat, (i : Int) < s.fdSize) :
    s.largest = .ok (itemsMaxFd s) :=
  (scan_eq s _ 0).trans (if_pos inside)

theorem largest_past (past : ¬∀ i ∈ List.range (s.maxFd + 1).toNat, (i : Int) < s.fdSize) :
    s.largest = .error .outOfBounds :=
  (scan_eq s _ 0).trans (if_neg past)

/-- What a call gives when it uses slots of the array only. -/
def SlotCall.Goes {κ : Type} (close : Item → κ → κ) (s : FdSelector × κ) (c : SlotCall) : Prop :=
  c.exec close s = if ∀ a ∈ c.accesses s.1, 0 ≤ a.1 ∧ a.1 < a.2 then .ok (c.run close s)
    else .error .outOfBounds

theorem register_goes {κ : Type} (close : Item → κ → κ) (s : FdSelector × κ) :
    SlotCall.Goes close s (.register fd (some handler) interest data alloc) := by
  unfold SlotCall.Goes
  by_cases invalid : invalidFd fd = true
  · simp [SlotCall.exec, SlotCall.accesses, SlotCall.run, selectorRegister, invalid]
  · have valid : invalidFd fd = false := by simpa using invalid
    have exec : (SlotCall.register fd (some handler) interest data alloc).exec close s =
        if (s.1.widened fd alloc).1 ≠ .success then
          .ok ((s.1.widened fd alloc).1, (s.1.widened fd alloc).2, s.2)
        else (s.1.widened fd alloc).2.slot fd >>= fun item =>
          if item.used then .ok (.fdinuse, (s.1.widened fd alloc).2, s.2)
          else .ok (.success,
            (s.1.widened fd alloc).2.filled fd ⟨fd, interest, handler, data⟩, s.2) := by
      simp only [SlotCall.exec, if_neg invalid]
      rfl
    rw [exec, register_accesses valid, SlotCall.run]
    simp only [register_widened valid]
    by_cases grown : (s.1.widened fd alloc).1 = .success
    · simp only [grown, ne_eq, not_true_eq_false, if_false, if_true, List.forall_mem_singleton,
        FdSelector.slot]
      split
      · rw [ok_bind]
        split <;> rfl
      · rfl
    · simp [grown]

theorem unregister_goes {κ : Type} (close : Item → κ → κ) (s : FdSelector × κ) :
    SlotCall.Goes close s (.unregister fd) := by
  unfold SlotCall.Goes
  by_cases invalid : invalidFd fd = true
  · simp [SlotCall.exec, SlotCall.accesses, SlotCall.run, selectorUnregisterFd, invalid]
  · have low := valid_low (by simpa using invalid)
    rw [unregister_accesses (by simpa using invalid)]
    by_cases here : fd < s.1.fdSize
    · by_cases used : (s.1.fds fd).used = true
      · have all : (∀ a ∈ (List.range (s.1.maxFd + 1).toNat).map fun (i : Nat) =>
            ((i : Int), s.1.fdSize), 0 ≤ a.1 ∧ a.1 < a.2) ↔
            ∀ i ∈ List.range (s.1.maxFd + 1).toNat, (i : Int) < s.1.fdSize := by
          simp
        simp only [SlotCall.exec, SlotCall.run, selectorUnregisterFd, if_neg invalid,
          slot_inside low here, ok_bind, if_pos used, List.forall_mem_cons, low, here, and_self,
          true_and, all]
        split
        · rename_i inside
          rw [largest_inside]
          · rfl
          · exact inside
        · rename_i past
          rw [largest_past]
          · rfl
          · exact past
      · simp [SlotCall.exec, SlotCall.run, selectorUnregisterFd, invalid, slot_inside low here,
          used, low, here]
    · simp [SlotCall.exec, invalid, slot_past here, here]

theorem setInterest_goes {κ : Type} (close : Item → κ → κ) (s : FdSelector × κ) :
    SlotCall.Goes close s (.setInterest fd interest) := by
  unfold SlotCall.Goes
  by_cases invalid : invalidFd fd = true
  · simp [SlotCall.exec, SlotCall.accesses, SlotCall.run, selectorSetInterest, invalid]
  · simp only [SlotCall.exec, SlotCall.accesses, SlotCall.run, selectorSetInterest, if_neg invalid,
      List.forall_mem_singleton, FdSelector.slot]
    split
    · rw [ok_bind]
      split <;> rfl
    · rfl

/-- A call does what it does with room for every slot if it uses those of the array only,
and faults otherwise. -/
theorem call_goes {κ : Type} (close : Item → κ → κ) (s : FdSelector × κ) :
    (c : SlotCall) → c.Goes close s
  | .register _ none _ _ _ => rfl
  | .register _ (some _) _ _ _ => register_goes close s
  | .unregister _ => unregister_goes close s
  | .setInterest _ _ => setInterest_goes close s

theorem contained_inside {κ : Type} {close : Item → κ → κ} {s : FdSelector × κ} {c : SlotCall}
    (inside : ∀ a ∈ c.accesses s.1, 0 ≤ a.1 ∧ a.1 < a.2)
    (refused : ¬(0 ≤ c.fd ∧ c.fd < (c.run close s).2.1.fdSize) → (c.run close s).1 ≠ .success) :
    c.Contained close s :=
  ⟨inside, (call_goes close s c).trans (if_pos inside), refused⟩

theorem register_contained_iff {κ : Type} (close : Item → κ → κ) {s : FdSelector × κ} :
    SlotCall.Contained close s (.register fd (some handler) interest data alloc) ↔
      invalidFd fd = true ∨ fd ≠ s.1.fdSize := by
  constructor
  · rintro ⟨inside, -⟩
    by_contra wrong
    rw [not_or, not_not] at wrong
    obtain ⟨valid, last⟩ := wrong
    have room : ¬fd > s.1.fdSize := by omega
    have used : (fd, s.1.fdSize) ∈
        (SlotCall.register fd (some handler) interest data alloc).accesses s.1 := by
      simp [SlotCall.accesses, valid, room]
    have := (inside _ used).2
    simp only at this
    omega
  · intro within
    by_cases invalid : invalidFd fd = true
    · refine contained_inside (fun a member => ?_) ?_
      · simp [SlotCall.accesses, invalid] at member
      · intro _
        simp [SlotCall.run, selectorRegister, invalid]
    · have valid : invalidFd fd = false := by simpa using invalid
      have other := within.resolve_left invalid
      have low := valid_low valid
      refine contained_inside (fun a member => ?_) ?_
      · rw [register_accesses valid] at member
        have found : (s.1.widened fd alloc).1 = .success ∧
            a = (fd, (s.1.widened fd alloc).2.fdSize) := by
          split at member
          · rename_i success
            exact ⟨success, List.mem_singleton.mp member⟩
          · cases member
        rw [found.2]
        exact ⟨low, widened_size valid found.1 other⟩
      · intro none success
        have size := widened_size valid (register_success valid success) other
        rw [← register_fdSize valid handler interest data] at size
        exact none ⟨low, size⟩

theorem unregister_contained_iff {κ : Type} (close : Item → κ → κ) {s : FdSelector × κ}
    (roomy : s.1.Roomy) : SlotCall.Contained close s (.unregister fd) ↔
      invalidFd fd = true ∨ fd < s.1.fdSize := by
  have size := (unregister_eq close s.1 s.2 fd).2.2.1
  have status := (unregister_eq close s.1 s.2 fd).1
  constructor
  · rintro ⟨inside, -⟩
    by_cases invalid : invalidFd fd = true
    · exact .inl invalid
    · have used : (fd, s.1.fdSize) ∈ (SlotCall.unregister fd).accesses s.1 := by
        rw [unregister_accesses (by simpa using invalid)]
        exact List.mem_cons_self
      exact .inr (inside _ used).2
  · intro within
    by_cases invalid : invalidFd fd = true
    · refine contained_inside (fun a member => ?_) ?_
      · simp [SlotCall.accesses, invalid] at member
      · intro _
        simp [SlotCall.run, status, FdSelector.Registered, invalid]
    · have high := within.resolve_left invalid
      have low := valid_low (by simpa using invalid)
      refine contained_inside (fun a member => ?_) ?_
      · have found : a = (fd, s.1.fdSize) ∨
            ∃ i < (s.1.maxFd + 1).toNat, a = ((i : Int), s.1.fdSize) := by
          rw [unregister_accesses (by simpa using invalid)] at member
          rcases List.mem_cons.mp member with first | scanned
          · exact .inl first
          · split at scanned
            · exact .inr (by simpa [eq_comm] using scanned)
            · cases scanned
        rcases found with rfl | ⟨i, small, rfl⟩
        · exact ⟨low, high⟩
        · have := roomy.maxFd
          simp only
          omega
      · intro none
        simp only [SlotCall.run, SlotCall.fd, size] at none
        exact absurd ⟨low, high⟩ none

theorem setInterest_contained_iff {κ : Type} (close : Item → κ → κ) {s : FdSelector × κ} :
    SlotCall.Contained close s (.setInterest fd interest) ↔
      invalidFd fd = true ∨ fd < s.1.fdSize := by
  by_cases invalid : invalidFd fd = true
  · refine iff_of_true (contained_inside (fun a member => ?_) fun _ => ?_) (.inl invalid)
    · simp [SlotCall.accesses, invalid] at member
    · simp [SlotCall.run, setInterest_status, FdSelector.Registered, invalid]
  · have low := valid_low (by simpa using invalid)
    have uses : (SlotCall.setInterest fd interest).accesses s.1 = [(fd, s.1.fdSize)] :=
      if_neg invalid
    constructor
    · rintro ⟨inside, -⟩
      rw [uses] at inside
      exact .inr (inside _ (List.mem_singleton_self _)).2
    · intro within
      have high := within.resolve_left invalid
      refine contained_inside (fun a member => ?_) ?_
      · rw [uses] at member
        rw [List.mem_singleton.mp member]
        exact ⟨low, high⟩
      · intro none
        simp only [SlotCall.run, SlotCall.fd, setInterest_fdSize] at none
        exact absurd ⟨low, high⟩ none

theorem contained_iff {κ : Type} (close : Item → κ → κ) {s : FdSelector × κ} (roomy : s.1.Roomy)
    (c : SlotCall) : c.Contained close s ↔ c.Within s.1 := by
  cases c with
  | register fd handler interest data alloc =>
    cases handler with
    | none =>
      refine iff_of_true (contained_inside (fun a member => ?_) fun _ => ?_) (.inl rfl)
      · cases member
      · simp [SlotCall.run]
    | some handler =>
      rw [register_contained_iff]
      simp [SlotCall.Within]
  | unregister fd => exact unregister_contained_iff close roomy
  | setInterest fd interest => exact setInterest_contained_iff close

/-- From a new selector on, the calls stay within the array exactly when no one registers
`fd_size` itself and the others keep below it. -/
theorem calls_contained_iff {κ : Type} (close : Item → κ → κ) (initialElements : Nat) (alloc : Bool)
    (k : κ) (made : (selectorNew initialElements alloc).1 = .success) (calls : List SlotCall) :
    Throughout (SlotCall.next close) (SlotCall.Contained close)
        ((selectorNew initialElements alloc).2, k) calls ↔
      Throughout (SlotCall.next close) (fun s c => c.Within s.1)
        ((selectorNew initialElements alloc).2, k) calls :=
  throughout_congr (I := fun s => s.1.Roomy) (fun _ c roomy => contained_iff close roomy c)
    (fun _ c roomy within => within_roomy close roomy c within) (new_roomy made)

/-- The array of the server: 1025 slots from the start. -/
theorem calls_contained_iff_server :
    let calls := [SlotCall.register 3 (some .socksPassive) opRead 0 true, .setInterest 3 opNoop,
      .unregister 3, .unregister 1024]
    Throughout (SlotCall.next fun _ k => k) (SlotCall.Contained fun _ k => k)
      ((selectorNew 1024 true).2, ()) calls :=
  (calls_contained_iff (fun _ k => k) 1024 true () (by decide) _).mpr (by decide +kernel)

/-- Two slots, and `2 > 2` does not grow them. -/
theorem registered_past_end : ¬∀ (initialElements : Nat) (alloc : Bool),
    initialElements ≤ itemsMaxSize → (selectorNew initialElements alloc).1 = .success →
      ∀ calls, Throughout (SlotCall.next fun _ k => k) (SlotCall.Contained fun _ k => k)
        ((selectorNew initialElements alloc).2, ()) calls := by
  intro all
  have contained := all 0 true (by decide) (by decide)
    [.register 2 (some .socks5) opRead 0 true]
  have used : ((2 : Int), 2) ∈ (SlotCall.register 2 (some .socks5) opRead 0 true).accesses
      (selectorNew 0 true).2 := by decide
  have inside := (contained.1.inside _ used).2
  exact absurd inside (by decide)

end

end SocksProxy
