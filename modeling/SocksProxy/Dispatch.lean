import SocksProxy.Lib.Fault
import SocksProxy.Selector

/-!
# selector.c: the scan of the ready sets

The handlers are arbitrary: what one does depends on everything delivered so far.
Of their effects only the calls of the selector matter here. `registered` counts
the registrations, and `holder` numbers the one in each slot; the source keeps
neither, and goes by the number of the descriptor.
-/

namespace SocksProxy

open Lib

inductive Op
  | read
  | write
  deriving DecidableEq, Repr

def FdInterest.has (i : FdInterest) : Op → Bool
  | .read => i.read
  | .write => i.write

def FdSelector.master (s : FdSelector) : Op → Int → Bool
  | .read => s.masterR
  | .write => s.masterW

/-- The passive sockets have no `handle_write`. -/
def FdHandler.handles : FdHandler → Op → Bool
  | .socks5, _ | .mng, _ => true
  | .socksPassive, op | .mngPassive, op => decide (op = .read)

structure Table where
  sel : FdSelector
  registered : Nat
  holder : Int → Nat

/-- The calls that `handle_close` makes stand before those of `unregister`. -/
inductive SelectorCall
  | register (fd : Int) (handler : FdHandler) (interest : FdInterest) (data : Nat) (alloc : Bool)
  | unregister (fd : Int)
  | setInterest (fd : Int) (interest : FdInterest)

/-- `s->fds + fd` for a valid descriptor past the end of the array. -/
def FdSelector.outside (s : FdSelector) (fd : Int) : Bool :=
  !invalidFd fd && decide ((s.fdSize : Int) ≤ fd)

def SelectorCall.apply (t : Table) : SelectorCall → Result Table
  | .register fd handler interest data alloc =>
    let r := selectorRegister t.sel fd handler interest data alloc
    if r.1 = .success then
      if r.2.outside fd then .error .outOfBounds
      else .ok ⟨r.2, t.registered + 1, Function.update t.holder fd t.registered⟩
    else .ok { t with sel := r.2 }
  | .unregister fd =>
    if t.sel.outside fd then .error .outOfBounds
    else .ok { t with sel := (selectorUnregisterFd (fun _ k => k) t.sel () fd).2.1 }
  | .setInterest fd interest =>
    if t.sel.outside fd then .error .outOfBounds
    else .ok { t with sel := (selectorSetInterest t.sel fd interest).2 }

/-- A call of `handle_read` or `handle_write`, with the key it gets and the table it finds. -/
structure Delivery where
  op : Op
  fd : Int
  data : Nat
  table : Table

/-- The calls of the last delivery's handler. -/
abbrev Handlers := List Delivery → List SelectorCall

def invoke (handlers : Handlers) (op : Op) (fd : Int) (data : Nat) (item : Item)
    (s : List Delivery × Table) : Result (List Delivery × Table) :=
  if item.handler.handles op then do
    let log := s.1 ++ [⟨op, fd, data, s.2⟩]
    let t ← (handlers log).foldlM SelectorCall.apply s.2
    .ok (log, t)
  else .error .assertion

/-- The handler is called if its bit is set and the interest has it. -/
def phase (handlers : Handlers) (wanted : Bool) (op : Op) (fd : Int) (data : Nat) (item : Item)
    (s : List Delivery × Table) : Result (List Delivery × Table) :=
  if wanted then invoke handlers op fd data item s else .ok s

/-- The body of the loop of `handle_iteration`. The key is filled before the first
handler runs, and `item` points into the array as it was then. -/
def handleItem (slave : Op → Int → Bool) (handlers : Handlers) (s : List Delivery × Table)
    (i : Nat) : Result (List Delivery × Table) :=
  let item := s.2.sel.fds i
  if item.used then do
    let r ← phase handlers (slave .read item.fd && item.interest.read) .read item.fd item.data item s
    if slave .write i && decide (r.2.sel.fdSize ≠ s.2.sel.fdSize) then .error .useAfterFree
    else
      let now := r.2.sel.fds i
      phase handlers (slave .write i && now.interest.write) .write item.fd item.data now r
  else .ok s

def handleIteration (slave : Op → Int → Bool) (handlers : Handlers) (t : Table) :
    Result (List Delivery × Table) :=
  (List.range (t.sel.maxFd + 1).toNat).foldlM (handleItem slave handlers) ([], t)

/-- What `pselect` leaves of the master sets. -/
def slaveOf (t : Table) (ready : Op → Int → Bool) (op : Op) (fd : Int) : Bool :=
  t.sel.master op fd && ready op fd

/-- `selector_select` when `pselect` succeeds, up to the end of the scan. -/
def selectorSelect (ready : Op → Int → Bool) (handlers : Handlers) (t : Table) :
    Result (List Delivery × Table) :=
  handleIteration (slaveOf t ready) handlers t

/-- A table after any calls. -/
def Reached (t : Table) : Prop :=
  ∃ initialElements alloc calls, (selectorNew initialElements alloc).1 = .success ∧
    List.foldlM SelectorCall.apply ⟨(selectorNew initialElements alloc).2, 0, fun _ => 0⟩ calls =
      .ok t

/-! ## What is promised, and when it holds -/

/-- The registration the event goes to was polled for it and found ready, and wants it still. -/
structure Polled (t : Table) (ready : Op → Int → Bool) (d : Delivery) : Prop where
  used : (t.sel.fds d.fd).used = true
  interest : (t.sel.fds d.fd).interest.has d.op = true
  ready : ready d.op d.fd = true
  same : (d.table.sel.fds d.fd).used = true ∧ d.table.holder d.fd = t.holder d.fd
  still : (d.table.sel.fds d.fd).interest.has d.op = true

/-- The scan comes to the event after the delivery. -/
def Awaited (d : Delivery) (fd : Int) (op : Op) : Prop :=
  d.fd < fd ∨ fd = d.fd ∧ d.op = .read ∧ op = .write

/-- The handler of a delivery makes the call in the table `t`. -/
def Makes (handlers : Handlers) (log : List Delivery) (d : Delivery) (t : Table)
    (c : SelectorCall) : Prop :=
  ∃ before after pre post, log = before ++ d :: after ∧
    handlers (before ++ [d]) = pre ++ c :: post ∧ pre.foldlM SelectorCall.apply d.table = .ok t

/-- The call gives a free slot to a new registration although an event of the old one is ready
and still to come. -/
def SelectorCall.Reuses (slave : Op → Int → Bool) (d : Delivery) (t : Table)
    (c : SelectorCall) : Prop :=
  ∃ fd handler interest data alloc op, c = .register fd handler interest data alloc ∧
    (t.sel.fds fd).used = false ∧ Awaited d fd op ∧ slave op fd = true

/-! ## What the calls keep -/

structure FdSelector.Sound (s : FdSelector) : Prop where
  own : ∀ fd, (s.fds fd).used = true → (s.fds fd).fd = fd
  bound : ∀ fd, (s.fds fd).used = true → fd < s.fdSize
  idle : ∀ fd, (s.fds fd).used = false → (s.fds fd).interest = opNoop
  master : ∀ op fd, s.master op fd = ((s.fds fd).used && (s.fds fd).interest.has op)

section
variable {s s' : FdSelector} {t t' : Table} {c : SelectorCall} {fd : Int} {n : Nat} {op : Op}

@[simp] theorem has_opNoop : opNoop.has op = false := by cases op <;> rfl

theorem itemsUpdate_master (item : Item) :
    (itemsUpdateFdsetForFd s item).master op =
      Function.update (s.master op) item.fd (item.used && item.interest.has op) := by
  cases op <;> rfl

theorem nextCapacity_gt (h : n ≤ itemsMaxSize) : n < nextCapacity n := by
  have pow : n < 2 ^ (if n = 0 then 0 else n.log2 + 1) := by
    split
    · omega
    · exact Nat.lt_log2_self
  unfold nextCapacity
  simp only
  omega

/-- A grown array keeps its slots; the new ones are unused. -/
structure Grown (s s' : FdSelector) : Prop where
  slot : ∀ fd, s'.fds fd = s.fds fd ∨ (s.fds fd).used = false ∧ s'.fds fd = itemInit
  size : s.fdSize ≤ s'.fdSize
  master : ∀ op, s'.master op = s.master op

theorem Grown.used (h : Grown s s') (fd : Int) : (s'.fds fd).used = (s.fds fd).used := by
  rcases h.slot fd with same | ⟨old, new⟩
  · rw [same]
  · rw [old, new]
    rfl

theorem Grown.sound (h : Grown s s') (sound : s.Sound) : s'.Sound := by
  constructor
  · intro fd used
    rcases h.slot fd with same | ⟨-, unused⟩
    · rw [same] at used ⊢
      exact sound.own fd used
    · rw [unused] at used
      cases used
  · intro fd used
    have old := sound.bound fd ((h.used fd).symm.trans used)
    have size := h.size
    omega
  · intro fd unused
    rcases h.slot fd with same | ⟨-, new⟩
    · rw [same] at unused ⊢
      exact sound.idle fd unused
    · rw [new]
      rfl
  · intro op fd
    rw [h.master, sound.master]
    rcases h.slot fd with same | ⟨old, new⟩
    · rw [same]
    · rw [old, new]
      rfl

theorem ensureCapacity_grown (sound : s.Sound) (alloc : Bool) :
    Grown s (ensureCapacity s n alloc).2 := by
  have kept : Grown s s := ⟨fun _ => .inl rfl, Nat.le_refl _, fun _ => rfl⟩
  unfold ensureCapacity
  split
  · exact kept
  · rename_i small
    split
    · exact kept
    · rename_i fits
      split
      · have more := nextCapacity_gt (Nat.le_of_not_lt fits)
        refine ⟨fun fd => ?_, by simp only; omega, fun op => by cases op <;> rfl⟩
        by_cases new : (s.fdSize : Int) ≤ fd ∧ fd < nextCapacity n
        · have unused : (s.fds fd).used = false := by
            by_contra used
            have := sound.bound fd (by simpa using used)
            omega
          exact .inr ⟨unused, by simp [itemsInit, new]⟩
        · exact .inl (by simp [itemsInit, new])
      · exact kept

theorem selectorNew_sound (initialElements : Nat) (alloc : Bool) :
    (selectorNew initialElements alloc).2.Sound := by
  have empty : FdSelector.Sound ⟨fun _ => itemInit, 0, 0, fun _ => false, fun _ => false, []⟩ := by
    constructor
    · intro fd used
      cases used
    · intro fd used
      cases used
    · intro fd _
      rfl
    · intro op fd
      cases op <;> rfl
  exact (ensureCapacity_grown empty alloc).sound empty

/-- A registration fills a slot that was free. -/
theorem register_cases (sound : s.Sound) (fd : Int) (handler : FdHandler) (interest : FdInterest)
    (data : Nat) (alloc : Bool) : ∃ g, Grown s g ∧
      ((selectorRegister s fd handler interest data alloc).1 ≠ .success ∧
          (selectorRegister s fd handler interest data alloc).2 = g ∨
        (selectorRegister s fd handler interest data alloc).1 = .success ∧
          invalidFd fd = false ∧ (s.fds fd).used = false ∧ ∃ top,
          (selectorRegister s fd handler interest data alloc).2 = itemsUpdateFdsetForFd
            { g with fds := Function.update g.fds fd ⟨fd, interest, handler, data⟩, maxFd := top }
            ⟨fd, interest, handler, data⟩) := by
  have kept : Grown s s := ⟨fun _ => .inl rfl, Nat.le_refl _, fun _ => rfl⟩
  unfold selectorRegister
  by_cases invalid : invalidFd fd = true
  · exact ⟨s, kept, by simp [invalid]⟩
  · by_cases more : fd > s.fdSize
    · have grown := ensureCapacity_grown (n := fd.toNat) sound alloc
      refine ⟨_, grown, ?_⟩
      simp only [invalid, more, if_true, if_false, Bool.false_eq_true]
      by_cases ret : (ensureCapacity s fd.toNat alloc).1 = .success
      · by_cases used : ((ensureCapacity s fd.toNat alloc).2.fds fd).used = true
        · simp [ret, used]
        · have free : (s.fds fd).used = false := by
            rw [← grown.used]
            simpa using used
          refine .inr ⟨by simp [ret, used], trivial, free, ?_⟩
          simp only [ret, used, ne_eq, not_true_eq_false, if_false, Bool.false_eq_true]
          exact ⟨_, rfl⟩
      · simp [ret]
    · refine ⟨s, kept, ?_⟩
      simp only [invalid, more, if_false, Bool.false_eq_true, ne_eq, not_true_eq_false]
      by_cases used : (s.fds fd).used = true
      · simp [used]
      · refine .inr ⟨by simp [used], trivial, by simpa using used, ?_⟩
        simp only [used, if_false, Bool.false_eq_true]
        exact ⟨_, rfl⟩

/-- What a call does to the slots: the table stays sound, and a slot in use is either
the registration it was or a new one in a free slot. -/
structure Applied (c : SelectorCall) (t t' : Table) : Prop where
  sound : t'.sel.Sound
  slot : ∀ fd, (t'.sel.fds fd).used = true →
    (t.sel.fds fd).used = true ∧ t'.holder fd = t.holder fd ∨
      (t.sel.fds fd).used = false ∧
        ∃ handler interest data alloc, c = .register fd handler interest data alloc

/-- One slot is replaced, and the master sets follow it. -/
theorem replaced_sound (sound : s.Sound) (item : Item) (slots : s'.fds = Function.update s.fds fd item)
    (size : s'.fdSize = s.fdSize)
    (follow : ∀ op, s'.master op =
      Function.update (s.master op) fd (item.used && item.interest.has op))
    (own : item.used = true → item.fd = fd ∧ fd < s.fdSize)
    (idle : item.used = false → item.interest = opNoop) : s'.Sound := by
  constructor
  · intro f used
    rw [slots] at used ⊢
    by_cases here : f = fd
    · subst here
      simp only [Function.update_self] at used ⊢
      exact (own used).1
    · rw [Function.update_of_ne here] at used ⊢
      exact sound.own f used
  · intro f used
    rw [slots] at used
    rw [size]
    by_cases here : f = fd
    · subst here
      simp only [Function.update_self] at used
      exact (own used).2
    · rw [Function.update_of_ne here] at used
      exact sound.bound f used
  · intro f unused
    rw [slots] at unused ⊢
    by_cases here : f = fd
    · subst here
      simp only [Function.update_self] at unused ⊢
      exact idle unused
    · rw [Function.update_of_ne here] at unused ⊢
      exact sound.idle f unused
  · intro op f
    rw [slots, follow]
    by_cases here : f = fd
    · subst here
      simp
    · simp only [Function.update_of_ne here]
      exact sound.master op f

theorem inside_bound (valid : invalidFd fd = false) (inside : ¬s.outside fd = true) :
    fd < s.fdSize := by
  simp only [FdSelector.outside, valid, Bool.not_false, Bool.true_and, decide_eq_true_eq] at inside
  omega

theorem register_applied {handler : FdHandler} {interest : FdInterest} {data : Nat} {alloc : Bool}
    (sound : t.sel.Sound)
    (h : (SelectorCall.register fd handler interest data alloc).apply t = .ok t') :
    Applied (.register fd handler interest data alloc) t t' := by
  obtain ⟨g, grown, ⟨failed, same⟩ | ⟨done, valid, free, top, same⟩⟩ :=
    register_cases sound fd handler interest data alloc
  · simp only [SelectorCall.apply, if_neg failed, same] at h
    cases h
    refine ⟨grown.sound sound, fun f used => .inl ⟨?_, rfl⟩⟩
    exact (grown.used f).symm.trans used
  · simp only [SelectorCall.apply, if_pos done, same] at h
    split at h
    · cases h
    · rename_i inside
      cases h
      have bound := inside_bound valid inside
      constructor
      · refine replaced_sound (grown.sound sound) ⟨fd, interest, handler, data⟩ rfl rfl
          (fun op => itemsUpdate_master _) (fun _ => ⟨rfl, bound⟩) fun unused => ?_
        have low : 0 ≤ fd := by
          simp only [invalidFd, decide_eq_false_iff_not] at valid
          omega
        have never : ¬fd ≠ -1 := of_decide_eq_false unused
        omega
      · intro f used
        by_cases here : f = fd
        · subst here
          exact .inr ⟨free, handler, interest, data, alloc, rfl⟩
        · simp only [itemsUpdate_fds, Function.update_of_ne here] at used ⊢
          exact .inl ⟨(grown.used f).symm.trans used, trivial⟩

theorem unregister_master (registered : s.Registered fd) :
    (selectorUnregisterFd (fun _ k => k) s () fd).2.1.master op =
      Function.update (s.master op) (s.fds fd).fd false := by
  unfold selectorUnregisterFd
  simp only [registered.1, registered.2, Bool.false_eq_true, if_true, if_false]
  cases op <;> simp [FdSelector.master, itemsUpdateFdsetForFd, opNoop]

theorem unregister_applied (sound : t.sel.Sound)
    (h : (SelectorCall.unregister fd).apply t = .ok t') : Applied (.unregister fd) t t' := by
  simp only [SelectorCall.apply] at h
  split at h
  · cases h
  · cases h
    have eq := unregister_eq (fun _ k => k) t.sel () fd
    by_cases registered : t.sel.Registered fd
    · simp only [if_pos registered] at eq
      constructor
      · refine replaced_sound sound itemInit eq.2.1 eq.2.2.1 (fun op => ?_)
          (fun used => by cases used) fun _ => rfl
        rw [unregister_master registered, sound.own fd registered.2]
        rfl
      · intro f used
        simp only [eq.2.1] at used
        by_cases here : f = fd
        · subst here
          simp at used
        · rw [Function.update_of_ne here] at used
          exact .inl ⟨used, rfl⟩
    · rw [unregister_refused _ () registered]
      exact ⟨sound, fun f used => .inl ⟨used, rfl⟩⟩

theorem setInterest_applied {interest : FdInterest} (sound : t.sel.Sound)
    (h : (SelectorCall.setInterest fd interest).apply t = .ok t') :
    Applied (.setInterest fd interest) t t' := by
  simp only [SelectorCall.apply] at h
  split at h
  · cases h
  · cases h
    have eq := setInterest_fds t.sel fd interest
    by_cases registered : t.sel.Registered fd
    · rw [if_pos registered] at eq
      constructor
      · refine replaced_sound sound _ eq (setInterest_fdSize _ _ _) (fun op => ?_)
          (fun _ => ⟨sound.own fd registered.2, sound.bound fd registered.2⟩) fun unused => ?_
        · have own := sound.own fd registered.2
          unfold selectorSetInterest
          simp only [registered.1, registered.2, Bool.false_eq_true, if_true, if_false]
          rw [itemsUpdate_master, own]
          rfl
        · exact absurd (registered.2.symm.trans unused) (by decide)
      · intro f used
        rw [(setInterest_retuned t.sel fd interest).used] at used
        exact .inl ⟨used, rfl⟩
    · rw [setInterest_refused interest registered]
      exact ⟨sound, fun f used => .inl ⟨used, rfl⟩⟩

theorem apply_applied (sound : t.sel.Sound) (h : c.apply t = .ok t') : Applied c t t' := by
  cases c with
  | register fd handler interest data alloc => exact register_applied sound h
  | unregister fd => exact unregister_applied sound h
  | setInterest fd interest => exact setInterest_applied sound h

theorem reached_sound (h : Reached t) : t.sel.Sound := by
  obtain ⟨initialElements, alloc, calls, -, ran⟩ := h
  refine foldlM_keeps (I := fun _ t => t.sel.Sound) ran (selectorNew_sound initialElements alloc) ?_
  intro pre c post u v _ _ sound step
  exact (apply_applied sound step).sound

end

/-! ## The scan -/

section
variable {t : Table} {ready : Op → Int → Bool} {handlers : Handlers} {log : List Delivery}
  {s s' : List Delivery × Table} {op : Op} {fd : Int} {data : Nat} {item : Item}

/-- No handler reuses a slot with an event to come. -/
def Harmless (t : Table) (ready : Op → Int → Bool) (handlers : Handlers) (log : List Delivery) :
    Prop :=
  ∀ d u c, Makes handlers log d u c → ¬c.Reuses (slaveOf t ready) d u

theorem Harmless.start {more : List Delivery} (h : Harmless t ready handlers (log ++ more)) :
    Harmless t ready handlers log := by
  rintro d u c ⟨before, after, pre, post, split, made, ran⟩
  exact h d u c ⟨before, after ++ more, pre, post, by simp [split], made, ran⟩

structure Good (t : Table) (ready : Op → Int → Bool) (s : List Delivery × Table) : Prop where
  sound : s.2.sel.Sound
  held : ∀ fd op, slaveOf t ready op fd = true → (∀ d ∈ s.1, Awaited d fd op) →
    (s.2.sel.fds fd).used = true → s.2.holder fd = t.holder fd
  polled : ∀ d ∈ s.1, Polled t ready d

theorem invoke_eq_ok :
    invoke handlers op fd data item s = .ok s' ↔ item.handler.handles op = true ∧
      s'.1 = s.1 ++ [⟨op, fd, data, s.2⟩] ∧
      (handlers s'.1).foldlM SelectorCall.apply s.2 = .ok s'.2 := by
  obtain ⟨log', t'⟩ := s'
  unfold invoke
  by_cases handles : item.handler.handles op = true
  · simp only [handles, if_true, bind_eq_ok, Except.ok.injEq, Prod.mk.injEq, true_and]
    constructor
    · rintro ⟨t, ran, rfl, rfl⟩
      exact ⟨rfl, ran⟩
    · rintro ⟨rfl, ran⟩
      exact ⟨t', ran, rfl, rfl⟩
  · simp [handles]

/-- A delivery to the registration that was polled, and the calls that its handler makes. -/
theorem invoke_good (sound : t.sel.Sound) (h : invoke handlers op fd data item s = .ok s')
    (harmless : Harmless t ready handlers s'.1) (good : Good t ready s)
    (next : ∀ d ∈ s.1, Awaited d fd op) (hit : slaveOf t ready op fd = true)
    (used : (s.2.sel.fds fd).used = true) (wants : (s.2.sel.fds fd).interest.has op = true) :
    Good t ready s' := by
  obtain ⟨-, logged, ran⟩ := invoke_eq_ok.mp h
  have polled : Polled t ready ⟨op, fd, data, s.2⟩ := by
    have set := hit
    rw [slaveOf, sound.master, Bool.and_eq_true, Bool.and_eq_true] at set
    exact ⟨set.1.1, set.1.2, set.2, ⟨used, good.held fd op hit next used⟩, wants⟩
  suffices kept : s'.2.sel.Sound ∧ ∀ f o, slaveOf t ready o f = true →
      (∀ d ∈ s'.1, Awaited d f o) → (s'.2.sel.fds f).used = true → s'.2.holder f = t.holder f by
    refine ⟨kept.1, kept.2, fun d member => ?_⟩
    rw [logged] at member
    rcases List.mem_append.mp member with old | new
    · exact good.polled d old
    · obtain rfl := List.mem_singleton.mp new
      exact polled
  refine foldlM_keeps (I := fun _ u => u.sel.Sound ∧ ∀ f o, slaveOf t ready o f = true →
    (∀ d ∈ s'.1, Awaited d f o) → (u.sel.fds f).used = true → u.holder f = t.holder f) ran ?_ ?_
  · refine ⟨good.sound, fun f o set later => good.held f o set fun d member => later d ?_⟩
    rw [logged]
    exact List.mem_append_left _ member
  · intro pre c post u v made before kept step
    have applied := apply_applied kept.1 step
    refine ⟨applied.sound, fun f o set later used => ?_⟩
    rcases applied.slot f used with ⟨old, same⟩ | ⟨free, handler, interest, data', alloc, rfl⟩
    · exact same.trans (kept.2 f o set later old)
    · -- a registration here would be a reuse
      have last : Awaited ⟨op, fd, data, s.2⟩ f o := by
        apply later
        rw [logged]
        exact List.mem_append_right _ (List.mem_singleton_self _)
      have makes : Makes handlers s'.1 ⟨op, fd, data, s.2⟩ u
          (.register f handler interest data' alloc) :=
        ⟨s.1, [], pre, post, logged, logged ▸ made, before⟩
      exact absurd ⟨f, handler, interest, data', alloc, o, rfl, free, last, set⟩
        (harmless _ _ _ makes)

theorem phase_logged {wanted : Bool} (h : phase handlers wanted op fd data item s = .ok s') :
    ∃ more, s'.1 = s.1 ++ more ∧ ∀ d ∈ more, d.fd = fd ∧ d.op = op := by
  unfold phase at h
  split at h
  · obtain ⟨-, logged, -⟩ := invoke_eq_ok.mp h
    refine ⟨_, logged, fun d member => ?_⟩
    obtain rfl := List.mem_singleton.mp member
    exact ⟨rfl, rfl⟩
  · cases h
    exact ⟨[], by simp, fun d member => nomatch member⟩

theorem phase_good {wanted : Bool} (sound : t.sel.Sound)
    (h : phase handlers wanted op fd data item s = .ok s')
    (harmless : Harmless t ready handlers s'.1) (good : Good t ready s)
    (next : ∀ d ∈ s.1, Awaited d fd op)
    (asked : wanted = true → slaveOf t ready op fd = true ∧ (s.2.sel.fds fd).used = true ∧
      (s.2.sel.fds fd).interest.has op = true) : Good t ready s' := by
  unfold phase at h
  split at h
  · rename_i wanted
    obtain ⟨hit, used, wants⟩ := asked wanted
    exact invoke_good sound h harmless good next hit used wants
  · cases h
    exact good

/-- The body of the loop as its two phases. -/
theorem handleItem_phases {slave : Op → Int → Bool} {i : Nat}
    (h : handleItem slave handlers s i = .ok s') :
    (s.2.sel.fds i).used = false ∧ s' = s ∨
      (s.2.sel.fds i).used = true ∧ ∃ r,
        phase handlers (slave .read (s.2.sel.fds i).fd && (s.2.sel.fds i).interest.read) .read
          (s.2.sel.fds i).fd (s.2.sel.fds i).data (s.2.sel.fds i) s = .ok r ∧
        phase handlers (slave .write i && (r.2.sel.fds i).interest.write) .write
          (s.2.sel.fds i).fd (s.2.sel.fds i).data (r.2.sel.fds i) r = .ok s' := by
  unfold handleItem at h
  simp only at h
  split at h
  · rename_i used
    obtain ⟨r, first, second⟩ := bind_eq_ok.mp h
    split at second
    · cases second
    · exact .inr ⟨used, r, first, second⟩
  · rename_i unused
    cases h
    exact .inl ⟨by simpa using unused, rfl⟩

theorem handleItem_good {i : Nat} (sound : t.sel.Sound)
    (h : handleItem (slaveOf t ready) handlers s i = .ok s')
    (harmless : Harmless t ready handlers s'.1) (good : Good t ready s)
    (before : ∀ d ∈ s.1, d.fd < i) : Good t ready s' ∧ ∀ d ∈ s'.1, d.fd < i + 1 := by
  rcases handleItem_phases h with ⟨-, rfl⟩ | ⟨used, r, first, second⟩
  · refine ⟨good, fun d member => ?_⟩
    have := before d member
    omega
  · rw [good.sound.own i used] at first second
    obtain ⟨xs, logged, reads⟩ := phase_logged first
    obtain ⟨ys, logged', writes⟩ := phase_logged second
    have middle : Good t ready r := by
      refine phase_good sound first (logged' ▸ harmless).start good
        (fun d member => .inl (before d member)) fun wanted => ?_
      rw [Bool.and_eq_true] at wanted
      exact ⟨wanted.1, used, wanted.2⟩
    constructor
    · refine phase_good sound second harmless middle (fun d member => ?_) fun wanted => ?_
      · rw [logged] at member
        rcases List.mem_append.mp member with old | new
        · exact .inl (before d old)
        · exact .inr ⟨(reads d new).1.symm, (reads d new).2, rfl⟩
      · rw [Bool.and_eq_true] at wanted
        refine ⟨wanted.1, ?_, wanted.2⟩
        -- a slot that the first handler freed is wiped
        by_contra unused
        have idle := middle.sound.idle i (by simpa using unused)
        rw [idle] at wanted
        exact absurd wanted.2 (by decide)
    · intro d member
      rw [logged', logged] at member
      rcases List.mem_append.mp member with member | new
      · rcases List.mem_append.mp member with old | new
        · have := before d old
          omega
        · have := (reads d new).1
          omega
      · have := (writes d new).1
        omega

theorem handleItem_logged {slave : Op → Int → Bool} {i : Nat}
    (h : handleItem slave handlers s i = .ok s') : ∃ more, s'.1 = s.1 ++ more := by
  rcases handleItem_phases h with ⟨-, rfl⟩ | ⟨-, r, first, second⟩
  · exact ⟨[], by simp⟩
  · obtain ⟨xs, logged, -⟩ := phase_logged first
    obtain ⟨ys, logged', -⟩ := phase_logged second
    exact ⟨xs ++ ys, by simp [logged, logged']⟩

/-- When no handler gives the slot of a ready event away before the scan comes to it,
every delivery goes to the registration that was polled. -/
theorem delivered_as_polled {t' : Table} (reached : Reached t) (ready : Op → Int → Bool)
    (handlers : Handlers) (ran : selectorSelect ready handlers t = .ok (log, t'))
    (harmless : Harmless t ready handlers log) : ∀ d ∈ log, Polled t ready d := by
  have sound := reached_sound reached
  have all : Harmless t ready handlers log → Good t ready (log, t') ∧
      ∀ d ∈ log, d.fd < (List.range (t.sel.maxFd + 1).toNat).length := by
    refine foldlM_keeps (I := fun pre (s : List Delivery × Table) =>
      Harmless t ready handlers s.1 → Good t ready s ∧ ∀ d ∈ s.1, d.fd < pre.length) ran ?_ ?_
    · exact fun _ => ⟨⟨sound, fun _ _ _ _ _ => rfl, fun d member => nomatch member⟩,
        fun d member => nomatch member⟩
    · intro pre i post u v split _ kept step harmless
      have place : i = pre.length := by
        have at' : (List.range (t.sel.maxFd + 1).toNat)[pre.length]? = some i := by simp [split]
        rw [List.getElem?_eq_some_iff] at at'
        obtain ⟨bound, at'⟩ := at'
        simpa using at'.symm
      obtain ⟨more, logged⟩ := handleItem_logged step
      obtain ⟨good, before⟩ := kept (logged ▸ harmless).start
      have done := handleItem_good sound step harmless good (place ▸ before)
      simpa [place] using done
  exact (all harmless).1.polled

/-- A selector of 1024 elements, some registrations, and a scan: what the registrations
are and what is delivered to which. -/
def scanned (calls : List SelectorCall) (ready : Op → Int → Bool) (handlers : Handlers) :
    Result (List (Op × Int × Nat × Nat)) := do
  let t ← calls.foldlM SelectorCall.apply ⟨(selectorNew 1024 true).2, 0, fun _ => 0⟩
  let r ← selectorSelect ready handlers t
  .ok (r.1.map fun d => (d.op, d.fd, d.table.holder d.fd, t.holder d.fd))

theorem scanned_ok {calls : List SelectorCall} {seen : List (Op × Int × Nat × Nat)}
    (h : (scanned calls ready handlers).toOption = some seen) : ∃ t log t', Reached t ∧
      calls.foldlM SelectorCall.apply ⟨(selectorNew 1024 true).2, 0, fun _ => 0⟩ = .ok t ∧
      selectorSelect ready handlers t = .ok (log, t') ∧
      log.map (fun d => (d.op, d.fd, d.table.holder d.fd, t.holder d.fd)) = seen := by
  have done : scanned calls ready handlers = .ok seen := by
    cases result : scanned calls ready handlers with
    | ok found => simpa [result, Except.toOption] using h
    | error fault => simp [result, Except.toOption] at h
  obtain ⟨t, setup, rest⟩ := bind_eq_ok.mp done
  obtain ⟨⟨log, t'⟩, ran, rest⟩ := bind_eq_ok.mp rest
  cases rest
  exact ⟨t, log, t', ⟨1024, true, calls, by decide, setup⟩, setup, ran, rfl⟩

/-- A client's request is read, and a socket for the origin is registered. -/
theorem delivered_as_polled_request : ∃ t ready handlers log t', Reached t ∧
    selectorSelect ready handlers t = .ok (log, t') ∧ log ≠ [] ∧ Harmless t ready handlers log ∧
    ∀ d ∈ log, Polled t ready d := by
  let calls := [SelectorCall.register 5 .socks5 opRead 1 true]
  let ready : Op → Int → Bool := fun _ _ => true
  let handlers : Handlers := fun _ =>
    [.setInterest 5 opNoop, .register 6 .socks5 opWrite 1 true]
  have seen : (scanned calls ready handlers).toOption = some [(.read, 5, 0, 0)] := by
    decide +kernel
  have unpolled : (calls.foldlM SelectorCall.apply
      ⟨(selectorNew 1024 true).2, 0, fun _ => 0⟩).toOption.map
      (fun t => (t.sel.masterR 6, t.sel.masterW 6)) = some (false, false) := by decide +kernel
  obtain ⟨t, log, t', reached, setup, ran, shown⟩ := scanned_ok seen
  simp only [setup, Except.toOption, Option.map_some, Option.some.injEq, Prod.mk.injEq] at unpolled
  have harmless : Harmless t ready handlers log := by
    rintro d u c ⟨before, after, pre, post, -, made, -⟩
      ⟨fd, handler, interest, data, alloc, op, rfl, -, -, set⟩
    have call : SelectorCall.register fd handler interest data alloc ∈
        [.setInterest 5 opNoop, .register 6 .socks5 opWrite 1 true] := by
      rw [show [_, _] = pre ++ _ :: post from made]
      simp
    simp only [List.mem_cons, reduceCtorEq, SelectorCall.register.injEq, List.not_mem_nil, or_false,
      false_or] at call
    obtain ⟨rfl, -⟩ := call
    cases op with
    | read => simp [slaveOf, FdSelector.master, unpolled] at set
    | write => simp [slaveOf, FdSelector.master, unpolled] at set
  exact ⟨t, ready, handlers, log, t', reached, ran, by rintro rfl; simp at shown, harmless,
    delivered_as_polled reached ready handlers ran harmless⟩

/-- One handler closes 4 and 7, the next two open sockets with these numbers: the
second of them is told that it may write because the old 7 could. -/
theorem stale_write : ∃ t ready handlers log t', Reached t ∧
    selectorSelect ready handlers t = .ok (log, t') ∧ ∃ d ∈ log, ¬Polled t ready d := by
  let calls := [SelectorCall.register 4 .socks5 opRead 1 true, .register 5 .socks5 opRead 2 true,
    .register 6 .socks5 opRead 3 true, .register 7 .socks5 opWrite 1 true]
  let ready : Op → Int → Bool := fun _ _ => true
  let handlers : Handlers := fun log =>
    match log.length with
    | 1 => [.unregister 4, .unregister 7]
    | 2 => [.setInterest 5 opNoop, .register 4 .socks5 opWrite 2 true]
    | 3 => [.setInterest 6 opNoop, .register 7 .socks5 opWrite 3 true]
    | _ => []
  have seen : (scanned calls ready handlers).toOption =
      some [(.read, 4, 0, 0), (.read, 5, 1, 1), (.read, 6, 2, 2), (.write, 7, 5, 3)] := by
    decide +kernel
  obtain ⟨t, log, t', reached, -, ran, shown⟩ := scanned_ok seen
  have last : (Op.write, (7 : Int), 5, 3) ∈
      log.map fun d => (d.op, d.fd, d.table.holder d.fd, t.holder d.fd) := by
    rw [shown]
    decide
  obtain ⟨d, member, same⟩ := List.mem_map.mp last
  simp only [Prod.mk.injEq] at same
  refine ⟨t, ready, handlers, log, t', reached, ran, d, member, fun polled => ?_⟩
  have held := polled.same.2
  omega

end

end SocksProxy
