import Mathlib.Algebra.Group.Nat.Defs
import Mathlib.Logic.Function.Basic

/-!
# selector.c: the table of registrations

`fds` is the slot array, indexed by descriptor; slots from `fdSize` on are not
allocated, and what a call does with one means nothing. The interest bits `OP_READ`
and `OP_WRITE` are two booleans.
-/

namespace SocksProxy

structure FdInterest where
  read : Bool
  write : Bool
  deriving DecidableEq, Repr

def opNoop : FdInterest := ⟨false, false⟩
def opRead : FdInterest := ⟨true, false⟩
def opWrite : FdInterest := ⟨false, true⟩

inductive SelectorStatus
  | success
  | enomem
  | maxfd
  | iargs
  | fdinuse
  | io
  deriving DecidableEq, Repr

/-- The `fd_handler` records of the server. -/
inductive FdHandler
  | socks5
  | mng
  | socksPassive
  | mngPassive
  deriving DecidableEq, Repr

/-- Unused items have `fd = -1`. `data` is the address of the attachment. -/
structure Item where
  fd : Int
  interest : FdInterest
  handler : FdHandler
  data : Nat
  deriving DecidableEq, Repr

def fdUnused : Int := -1

def Item.used (i : Item) : Bool := decide (i.fd ≠ fdUnused)

/-- A slot wiped by `memset` and `item_init`. -/
def itemInit : Item := ⟨fdUnused, opNoop, .socks5, 0⟩

structure FdSelector where
  fds : Int → Item
  fdSize : Nat
  maxFd : Int
  masterR : Int → Bool
  masterW : Int → Bool
  /-- Descriptors of the finished blocking jobs. -/
  resolutionJobs : List Int

/-- `ITEMS_MAX_SIZE`, that is `FD_SETSIZE`. -/
def itemsMaxSize : Nat := 1024

def nextCapacity (n : Nat) : Nat :=
  let bits := if n = 0 then 0 else n.log2 + 1
  min (2 ^ bits) itemsMaxSize + 1

def itemsInit (fds : Int → Item) (last size : Nat) : Int → Item := fun i =>
  if (last : Int) ≤ i ∧ i < size then itemInit else fds i

/-- `alloc` is the outcome of `calloc` or `realloc`. -/
def ensureCapacity (s : FdSelector) (n : Nat) (alloc : Bool) : SelectorStatus × FdSelector :=
  if n < s.fdSize then (.success, s)
  else if itemsMaxSize < n then (.maxfd, s)
  else if alloc then
    (.success, { s with
      fds := itemsInit s.fds s.fdSize (nextCapacity n), fdSize := nextCapacity n })
  else (.enomem, s)

/-- A zeroed selector whose slot array is made by `ensure_capacity`. -/
def selectorNew (initialElements : Nat) (alloc : Bool) : SelectorStatus × FdSelector :=
  ensureCapacity ⟨fun _ => itemInit, 0, 0, fun _ => false, fun _ => false, []⟩ initialElements alloc

/-- `INVALID_FD(fd)`. -/
def invalidFd (fd : Int) : Bool := decide (fd < 0 ∨ fd ≥ itemsMaxSize)

def itemsUpdateFdsetForFd (s : FdSelector) (item : Item) : FdSelector :=
  { s with
    masterR := Function.update s.masterR item.fd (item.used && item.interest.read)
    masterW := Function.update s.masterW item.fd (item.used && item.interest.write) }

/-- The scan of `items_max_fd` over the slots up to the old maximum. -/
def itemsMaxFd (s : FdSelector) : Int :=
  (List.range (s.maxFd + 1).toNat).foldl (fun (max : Int) (i : Nat) =>
    if (s.fds i).used ∧ (s.fds i).fd > max then (s.fds i).fd else max) 0

def selectorRegister (s : FdSelector) (fd : Int) (handler : FdHandler) (interest : FdInterest)
    (data : Nat) (alloc : Bool) : SelectorStatus × FdSelector :=
  if invalidFd fd then (.iargs, s)
  else
    let (ret, s) := if fd > s.fdSize then ensureCapacity s fd.toNat alloc else (.success, s)
    if ret ≠ .success then (ret, s)
    else if (s.fds fd).used then (.fdinuse, s)
    else
      let item : Item := ⟨fd, interest, handler, data⟩
      let s := { s with
        fds := Function.update s.fds fd item
        maxFd := if fd > s.maxFd then fd else s.maxFd }
      (.success, itemsUpdateFdsetForFd s item)

/-- `close` is what the `handle_close` callback of an item does to the rest of
the program; it runs before the slot is wiped. -/
def selectorUnregisterFd {κ : Type} (close : Item → κ → κ) (s : FdSelector) (k : κ) (fd : Int) :
    SelectorStatus × FdSelector × κ :=
  if invalidFd fd then (.iargs, s, k)
  else if (s.fds fd).used then
    let item := s.fds fd
    let k := close item k
    let s := itemsUpdateFdsetForFd s { item with interest := opNoop }
    let s := { s with fds := Function.update s.fds fd itemInit }
    (.success, { s with maxFd := itemsMaxFd s }, k)
  else (.iargs, s, k)

def selectorSetInterest (s : FdSelector) (fd : Int) (i : FdInterest) :
    SelectorStatus × FdSelector :=
  if invalidFd fd then (.iargs, s)
  else if (s.fds fd).used then
    let item := { s.fds fd with interest := i }
    (.success, itemsUpdateFdsetForFd { s with fds := Function.update s.fds fd item } item)
  else (.iargs, s)

/-! ## What the calls do to the slots -/

/-- The slot of `fd` is in use, and `fd` is a number the selector takes. -/
def FdSelector.Registered (s : FdSelector) (fd : Int) : Prop :=
  invalidFd fd = false ∧ (s.fds fd).used = true

instance (s : FdSelector) (fd : Int) : Decidable (s.Registered fd) :=
  inferInstanceAs (Decidable (_ ∧ _))

@[simp] theorem used_itemInit : itemInit.used = false := rfl

@[simp] theorem itemsUpdate_fds (s : FdSelector) (item : Item) :
    (itemsUpdateFdsetForFd s item).fds = s.fds := rfl

@[simp] theorem itemsUpdate_fdSize (s : FdSelector) (item : Item) :
    (itemsUpdateFdsetForFd s item).fdSize = s.fdSize := rfl

@[simp] theorem itemsUpdate_resolutionJobs (s : FdSelector) (item : Item) :
    (itemsUpdateFdsetForFd s item).resolutionJobs = s.resolutionJobs := rfl

theorem setInterest_refused {s : FdSelector} {fd : Int} (i : FdInterest)
    (refused : ¬s.Registered fd) : selectorSetInterest s fd i = (.iargs, s) := by
  unfold selectorSetInterest FdSelector.Registered at *
  by_cases hv : invalidFd fd = true <;> simp_all

theorem unregister_refused {κ : Type} {s : FdSelector} {fd : Int} (close : Item → κ → κ) (k : κ)
    (refused : ¬s.Registered fd) : selectorUnregisterFd close s k fd = (.iargs, s, k) := by
  unfold selectorUnregisterFd FdSelector.Registered at *
  by_cases hv : invalidFd fd = true <;> simp_all

theorem setInterest_status (s : FdSelector) (fd : Int) (i : FdInterest) :
    (selectorSetInterest s fd i).1 = if s.Registered fd then .success else .iargs := by
  unfold selectorSetInterest FdSelector.Registered
  by_cases hv : invalidFd fd = true <;> by_cases hu : (s.fds fd).used = true <;> simp [hv, hu]

theorem setInterest_fds (s : FdSelector) (fd : Int) (i : FdInterest) :
    (selectorSetInterest s fd i).2.fds =
      if s.Registered fd then Function.update s.fds fd { s.fds fd with interest := i }
      else s.fds := by
  unfold selectorSetInterest FdSelector.Registered
  by_cases hv : invalidFd fd = true <;> by_cases hu : (s.fds fd).used = true <;> simp [hv, hu]

@[simp] theorem setInterest_fdSize (s : FdSelector) (fd : Int) (i : FdInterest) :
    (selectorSetInterest s fd i).2.fdSize = s.fdSize := by
  unfold selectorSetInterest
  by_cases hv : invalidFd fd = true <;> by_cases hu : (s.fds fd).used = true <;> simp [hv, hu]

@[simp] theorem setInterest_resolutionJobs (s : FdSelector) (fd : Int) (i : FdInterest) :
    (selectorSetInterest s fd i).2.resolutionJobs = s.resolutionJobs := by
  unfold selectorSetInterest
  by_cases hv : invalidFd fd = true <;> by_cases hu : (s.fds fd).used = true <;> simp [hv, hu]

/-- A table that already spans every descriptor is never grown. -/
theorem register_eq {s : FdSelector} (full : itemsMaxSize < s.fdSize) (fd : Int)
    (handler : FdHandler) (interest : FdInterest) (data : Nat) (alloc : Bool) :
    (selectorRegister s fd handler interest data alloc).1 =
        (if invalidFd fd then .iargs else if (s.fds fd).used then .fdinuse else .success) ∧
      (selectorRegister s fd handler interest data alloc).2.fds =
        (if (selectorRegister s fd handler interest data alloc).1 = .success then
          Function.update s.fds fd ⟨fd, interest, handler, data⟩ else s.fds) ∧
      (selectorRegister s fd handler interest data alloc).2.fdSize = s.fdSize ∧
      (selectorRegister s fd handler interest data alloc).2.resolutionJobs = s.resolutionJobs := by
  unfold selectorRegister
  cases hv : invalidFd fd with
  | true => simp
  | false =>
    have hlt : ¬ fd > s.fdSize := by
      simp only [invalidFd, decide_eq_false_iff_not, not_or] at hv
      omega
    cases hu : (s.fds fd).used <;> simp [hlt, hu]

theorem unregister_eq {κ : Type} (close : Item → κ → κ) (s : FdSelector) (k : κ) (fd : Int) :
    (selectorUnregisterFd close s k fd).1 = (if s.Registered fd then .success else .iargs) ∧
      (selectorUnregisterFd close s k fd).2.1.fds =
        (if s.Registered fd then Function.update s.fds fd itemInit else s.fds) ∧
      (selectorUnregisterFd close s k fd).2.1.fdSize = s.fdSize ∧
      (selectorUnregisterFd close s k fd).2.1.resolutionJobs = s.resolutionJobs ∧
      (selectorUnregisterFd close s k fd).2.2 =
        (if s.Registered fd then close (s.fds fd) k else k) := by
  unfold selectorUnregisterFd FdSelector.Registered
  by_cases hv : invalidFd fd = true <;> by_cases hu : (s.fds fd).used = true <;> simp [hv, hu]

/-- Only interests differ, and only in the slots of `fds`. -/
structure FdSelector.Retuned (fds : List Int) (s t : FdSelector) : Prop where
  size : t.fdSize = s.fdSize
  jobs : t.resolutionJobs = s.resolutionJobs
  slot : ∀ fd, ∃ i, t.fds fd = { s.fds fd with interest := i }
  outside : ∀ fd, fd ∉ fds → t.fds fd = s.fds fd

theorem FdSelector.Retuned.refl (fds : List Int) (s : FdSelector) : s.Retuned fds s :=
  ⟨rfl, rfl, fun fd => ⟨(s.fds fd).interest, rfl⟩, fun _ _ => rfl⟩

theorem FdSelector.Retuned.trans {fds fds' : List Int} {s t u : FdSelector}
    (h : s.Retuned fds t) (k : t.Retuned fds' u) : s.Retuned (fds ++ fds') u where
  size := k.size.trans h.size
  jobs := k.jobs.trans h.jobs
  slot := fun fd => by
    obtain ⟨i, hi⟩ := h.slot fd
    obtain ⟨j, hj⟩ := k.slot fd
    exact ⟨j, by rw [hj, hi]⟩
  outside := fun fd out => by
    rw [List.mem_append, not_or] at out
    rw [k.outside fd out.2, h.outside fd out.1]

theorem FdSelector.Retuned.used {fds : List Int} {s t : FdSelector} (h : s.Retuned fds t)
    (fd : Int) : (t.fds fd).used = (s.fds fd).used := by
  obtain ⟨i, hi⟩ := h.slot fd
  rw [hi]
  rfl

theorem FdSelector.Retuned.data {fds : List Int} {s t : FdSelector} (h : s.Retuned fds t)
    (fd : Int) : (t.fds fd).data = (s.fds fd).data := by
  obtain ⟨i, hi⟩ := h.slot fd
  rw [hi]

theorem FdSelector.Retuned.handler {fds : List Int} {s t : FdSelector} (h : s.Retuned fds t)
    (fd : Int) : (t.fds fd).handler = (s.fds fd).handler := by
  obtain ⟨i, hi⟩ := h.slot fd
  rw [hi]

theorem FdSelector.Retuned.registered {fds : List Int} {s t : FdSelector} (h : s.Retuned fds t)
    (fd : Int) : t.Registered fd ↔ s.Registered fd := by
  unfold FdSelector.Registered
  rw [h.used]

theorem setInterest_retuned (s : FdSelector) (fd : Int) (i : FdInterest) :
    s.Retuned [fd] (selectorSetInterest s fd i).2 where
  size := setInterest_fdSize s fd i
  jobs := setInterest_resolutionJobs s fd i
  slot := fun f => by
    rw [setInterest_fds]
    split
    · by_cases h : f = fd
      · subst h
        exact ⟨i, by simp⟩
      · exact ⟨(s.fds f).interest, by simp [h]⟩
    · exact ⟨(s.fds f).interest, rfl⟩
  outside := fun f out => by
    rw [setInterest_fds]
    have : f ≠ fd := by simpa using out
    split <;> simp [this]

end SocksProxy
