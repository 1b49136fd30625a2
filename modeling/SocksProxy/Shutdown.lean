import SocksProxy.Polling

/-!
# The end of the server

When the loop of `main` ends, `selector_destroy` unregisters every item, and the pools are freed.
-/

namespace SocksProxy

open Lib

/-- `selector_unregister_fd` outside of every callback; the passive sockets have no `handle_close`. -/
def Process.unregister (p : Process) (fd : Int) : Result Process :=
  match (p.world.sel.fds fd).handler with
  | .socksPassive | .mngPassive =>
    let r := selectorUnregisterFd (fun _ k => k) p.world.sel () fd
    .ok ⟨{ p.world with sel := r.2.1 }, p.part⟩
  | .socks5 | .mng =>
    match p.part (p.world.sel.fds fd).data with
    | some x =>
      .ok (p.settle (p.world.sel.fds fd).data ⟨x.1, ((view x p.world).conn.unregister fd).2⟩)
    | none => .error .useAfterFree

/-- The loop of `selector_destroy` over these items. -/
def Process.unregisterAll (is : List Nat) (p : Process) : Result Process :=
  is.foldlM (fun p (i : Nat) => if (p.world.sel.fds i).used then p.unregister i else .ok p) p

def Process.selectorDestroy (p : Process) : Result Process :=
  p.unregisterAll (List.range p.world.sel.fdSize)

/-- Every item has its owner, and every record in use as many references as items. -/
structure Process.Closing (p : Process) : Prop where
  valid : ∀ fd, (p.world.sel.fds fd).used = true → invalidFd fd = false
  owned : ∀ fd, (p.world.sel.fds fd).used = true →
    (p.world.sel.fds fd).owner = (.socksPassive, 0) ∨ (p.world.sel.fds fd).owner = (.mngPassive, 0) ∨
      ∃ key x, p.part key = some x ∧ (p.world.sel.fds fd).owner = (x.2.handler, key)
  counted : ∀ key x, p.part key = some x → x.2.self = key ∧ key ≠ 0 ∧ .released ∉ x.2.calls ∧
    ∃ fds : List Int, fds.Nodup ∧ fds ≠ [] ∧ fds.length = x.2.references ∧
      ∀ fd, fd ∈ fds ↔ (p.world.sel.fds fd).used = true ∧ (p.world.sel.fds fd).data = key
  once : p.world.pooled.Nodup
  pooled : ∀ key ∈ p.world.pooled, p.part key = none

/-- Nothing is registered or in use any more, and each record of the pools is there once. -/
structure Process.Released (p : Process) : Prop where
  items : ∀ fd, (p.world.sel.fds fd).used = false
  parts : ∀ key, p.part key = none
  once : p.world.pooled.Nodup

section
variable {others socks mng : List Nat} {dissectors : UInt8} {heap : Heap} {users admins : UserTable}
  {base : Int → Bool} {p p' q : Process} {ls : List (Process × Happening)} {fd : Int} {key n : Nat}
  {x : StateMachine × Socks5} {c d : Conn}

/-! ## One item -/

/-- What `handle_close` does to its record. -/
structure Conn.Closes (c : Conn) (n : Nat) (d : Conn) : Prop where
  few : n ≤ 1
  last : n = 1 ↔ c.references = 1
  calls : d.calls = c.calls ++ List.replicate n .released
  pool : d.pool c.isSocks = (c.pool c.isSocks).puts c.self n
  other : d.pool (!c.isSocks) = c.pool (!c.isSocks)
  self : d.self = c.self
  handler : d.handler = c.handler
  references : n = 0 → d.references = c.references - 1

theorem handleClose_closes {item : Item} (handler : item.handler = c.handler)
    (data : item.data = c.self) : ∃ n, c.Closes n (handleClose item c) := by
  unfold handleClose
  rw [handler, data]
  unfold Socks5.handler
  cases socks : c.isSocks with
  | true =>
    simp only [if_true, socks5Destroy]
    by_cases last : c.references = 1
    · rw [if_pos last]
      exact ⟨1, by decide, iff_of_true rfl last, rfl, by rw [socks]; rfl, by rw [socks]; rfl, rfl, rfl,
        fun none' => by cases none'⟩
    · rw [if_neg last]
      exact ⟨0, by decide, iff_of_false (by decide) last, (List.append_nil _).symm, rfl, rfl, rfl, rfl,
        fun _ => rfl⟩
  | false =>
    simp only [Bool.false_eq_true, if_false, mngDestroy]
    by_cases last : c.references = 1
    · rw [if_pos last]
      exact ⟨1, by decide, iff_of_true rfl last, rfl, by rw [socks]; rfl, by rw [socks]; rfl, rfl, rfl,
        fun none' => by cases none'⟩
    · rw [if_neg last]
      exact ⟨0, by decide, iff_of_false (by decide) last, (List.append_nil _).symm, rfl, rfl, rfl, rfl,
        fun _ => rfl⟩

/-- The record is released with its last reference, and not before. -/
theorem Conn.Closes.released (closes : c.Closes n d) (kept : .released ∉ c.calls) :
    .released ∈ d.calls ↔ n = 1 := by
  have few := closes.few
  rw [closes.calls, List.mem_append, List.mem_replicate]
  constructor
  · rintro (before | ⟨some', -⟩)
    · exact absurd before kept
    · omega
  · intro one
    exact .inr ⟨by omega, rfl⟩

/-- The other items stay as they are. -/
theorem update_others {fds fds' : Int → Item} (update : fds' = Function.update fds fd itemInit) (f : Int)
    (used : (fds' f).used = true) : f ≠ fd ∧ fds' f = fds f := by
  subst update
  by_cases here : f = fd
  · rw [here, Function.update_self] at used
    cases used
  · exact ⟨here, Function.update_of_ne here _ _⟩

theorem update_stays {fds fds' : Int → Item} (update : fds' = Function.update fds fd itemInit) {k : Nat}
    (ne : k ≠ (fds fd).data) (f : Int) : ((fds' f).used = true ∧ (fds' f).data = k ↔
      (fds f).used = true ∧ (fds f).data = k) := by
  subst update
  by_cases here : f = fd
  · rw [here, Function.update_self]
    exact iff_of_false (fun h => Bool.noConfusion h.1) fun h => ne h.2.symm
  · rw [Function.update_of_ne here]

/-- The items of a record without the one that goes. -/
theorem update_erase {table table' : Int → Item} {fds : List Int}
    (update : table' = Function.update table fd itemInit) (nodup : fds.Nodup)
    (listed : ∀ f, f ∈ fds ↔ (table f).used = true ∧ (table f).data = key) (f : Int) :
    f ∈ fds.erase fd ↔ (table' f).used = true ∧ (table' f).data = key := by
  subst update
  rw [nodup.mem_erase_iff, listed]
  by_cases here : f = fd
  · rw [here, Function.update_self]
    exact iff_of_false (fun h => h.1 rfl) fun h => Bool.noConfusion h.1
  · rw [Function.update_of_ne here]
    exact and_iff_right here

theorem unregistered_items {κ : Type} (close : Item → κ → κ) (k : κ) {s : FdSelector}
    (registered : s.Registered fd) :
    (selectorUnregisterFd close s k fd).2.1.fds = Function.update s.fds fd itemInit := by
  rw [(unregister_eq close s k fd).2.1, if_pos registered]

/-- A passive socket is no record's. -/
theorem passive_closing (closing : p.Closing) (used : (p.world.sel.fds fd).used = true)
    (data : (p.world.sel.fds fd).data = 0) (handler : (p.world.sel.fds fd).handler = .socksPassive ∨
      (p.world.sel.fds fd).handler = .mngPassive) :
    ∃ q, p.unregister fd = .ok q ∧ q.Closing ∧
      q.world.sel.fds = Function.update p.world.sel.fds fd itemInit := by
  have registered : p.world.sel.Registered fd := ⟨closing.valid fd used, used⟩
  have ran : p.unregister fd = .ok ⟨{ p.world with
      sel := (selectorUnregisterFd (fun _ k => k) p.world.sel () fd).2.1 }, p.part⟩ := by
    unfold Process.unregister
    rcases handler with handler | handler <;> rw [handler]
  refine ⟨_, ran, ?_, unregistered_items _ _ registered⟩
  constructor
  case valid =>
    intro f used'
    have same := update_others (unregistered_items (fun _ k => k) () registered) f used'
    exact closing.valid f (same.2 ▸ used')
  case owned =>
    intro f used'
    obtain ⟨-, same⟩ := update_others (unregistered_items (fun _ k => k) () registered) f used'
    have before := closing.owned f (same ▸ used')
    rw [← same] at before
    exact before
  case counted =>
    intro k y there
    obtain ⟨self, address, kept, fds, nodup, some, length, listed⟩ := closing.counted k y there
    refine ⟨self, address, kept, fds, nodup, some, length, fun f => ?_⟩
    rw [listed]
    exact (update_stays (unregistered_items (fun _ k => k) () registered) (by rw [data]; exact address)
      f).symm
  case once => exact closing.once
  case pooled => exact closing.pooled

/-- The record of the item is in use. -/
theorem record_unregistered (registered : p.world.sel.Registered fd) (there : p.part key = some x)
    (owner : (p.world.sel.fds fd).owner = (x.2.handler, key)) :
    p.unregister fd = .ok (p.settle key ⟨x.1,
      { handleClose (p.world.sel.fds fd) (view x p.world).conn with
        sel := (selectorUnregisterFd handleClose p.world.sel (view x p.world).conn fd).2.1 }⟩) := by
  have data : (p.world.sel.fds fd).data = key := congrArg Prod.snd owner
  have handler : (p.world.sel.fds fd).handler = x.2.handler := congrArg Prod.fst owner
  have closed : ((view x p.world).conn.unregister fd).2 =
      { handleClose (p.world.sel.fds fd) (view x p.world).conn with
        sel := (selectorUnregisterFd handleClose p.world.sel (view x p.world).conn fd).2.1 } := by
    have eq := (unregister_eq handleClose p.world.sel (view x p.world).conn fd).2.2.2.2
    rw [if_pos registered] at eq
    rw [← eq]
    rfl
  have kinds : x.2.handler = .socks5 ∨ x.2.handler = .mng := by
    unfold Socks5.handler
    split
    · exact .inl rfl
    · exact .inr rfl
  rw [← closed]
  unfold Process.unregister
  rw [handler, data]
  rcases kinds with kind | kind <;> simp only [kind, there]

/-- An item of a connection takes a reference, or the connection, with it. -/
theorem record_closing (closing : p.Closing) (used : (p.world.sel.fds fd).used = true)
    (there : p.part key = some x) (owner : (p.world.sel.fds fd).owner = (x.2.handler, key)) :
    ∃ q, p.unregister fd = .ok q ∧ q.Closing ∧
      q.world.sel.fds = Function.update p.world.sel.fds fd itemInit := by
  have registered : p.world.sel.Registered fd := ⟨closing.valid fd used, used⟩
  have data : (p.world.sel.fds fd).data = key := congrArg Prod.snd owner
  have handler : (p.world.sel.fds fd).handler = x.2.handler := congrArg Prod.fst owner
  obtain ⟨self, address, kept, fds, nodup, some', length, listed⟩ := closing.counted key x there
  obtain ⟨n, closes⟩ := handleClose_closes (c := (view x p.world).conn) handler (data.trans self.symm)
  refine ⟨_, record_unregistered registered there owner, ?_,
    unregistered_items handleClose (view x p.world).conn registered⟩
  generalize left : handleClose (p.world.sel.fds fd) (view x p.world).conn = d at closes
  have fresh : key ∉ p.world.pooled := fun member => by
    cases there.symm.trans (closing.pooled key member)
  obtain ⟨once, pools⟩ := @puts_sound key p.world d.toWorld x.2.isSocks n closing.once fresh closes.few
    (self ▸ closes.pool) closes.other
  have ends : .released ∈ d.calls ↔ n = 1 := closes.released kept
  -- the last item of the record is the one that goes
  have alone : n = 1 → ∀ f ∈ fds, f = fd := by
    intro one f member
    have single : x.2.references = 1 := closes.last.mp one
    rw [single] at length
    obtain ⟨only, rfl⟩ := List.length_eq_one_iff.mp length
    rw [List.mem_singleton.mp member]
    exact (List.mem_singleton.mp ((listed fd).mpr ⟨used, data⟩)).symm
  have handler' : d.toSocks5.handler = x.2.handler := closes.handler
  obtain ⟨s, sel⟩ : ∃ s, s = (selectorUnregisterFd handleClose p.world.sel
      (view x p.world).conn fd).2.1 := ⟨_, rfl⟩
  have update : s.fds = Function.update p.world.sel.fds fd itemInit := by
    rw [sel]
    exact unregistered_items handleClose (view x p.world).conn registered
  rw [← sel]
  have own : (p.settle key ⟨x.1, { d with sel := s }⟩).part key =
      if .released ∈ d.calls then none else some (x.1, d.toSocks5) := move_self _
  have other : ∀ {k}, k ≠ key →
      (p.settle key ⟨x.1, { d with sel := s }⟩).part k = p.part k := fun ne => move_other _ ne
  constructor
  case valid => exact fun f used' => closing.valid f ((update_others update f used').2 ▸ used')
  case owned =>
    intro f used'
    obtain ⟨ne, same⟩ := update_others update f used'
    change (s.fds f).owner = _ ∨ (s.fds f).owner = _ ∨ ∃ k y, _ ∧ (s.fds f).owner = _
    rw [same]
    have used'' : (p.world.sel.fds f).used = true := same ▸ used'
    rcases closing.owned f used'' with passive | passive | ⟨k, y, there', owner'⟩
    · exact .inl passive
    · exact .inr (.inl passive)
    · refine .inr (.inr ?_)
      by_cases mine : k = key
      · subst mine
        obtain rfl := Option.some.inj (there'.symm.trans there)
        have more : .released ∉ d.calls := fun gone =>
          ne (alone (ends.mp gone) f ((listed f).mpr ⟨used'', congrArg Prod.snd owner'⟩))
        exact ⟨k, _, own.trans (if_neg more), owner'.trans (by rw [handler'])⟩
      · exact ⟨k, y, (other mine).trans there', owner'⟩
  case counted =>
    intro k y there'
    by_cases mine : k = key
    · subst mine
      rw [own] at there'
      split at there'
      · cases there'
      · rename_i more
        obtain rfl := Option.some.inj there'
        have zero : n = 0 := by
          have few := closes.few
          have going := mt ends.mpr more
          omega
        have references : d.references = x.2.references - 1 := closes.references zero
        have several : x.2.references ≠ 1 := fun single => by
          have last := closes.last.mpr single
          omega
        have positive := List.length_pos_iff.mpr some'
        have member : fd ∈ fds := (listed fd).mpr ⟨used, data⟩
        have fewer := List.length_erase_of_mem member
        refine ⟨closes.self.trans self, address, more, fds.erase fd, nodup.erase fd, ?_, ?_,
          update_erase update nodup listed⟩
        · exact List.length_pos_iff.mp (by omega)
        · rw [fewer, length, references]
    · rw [other mine] at there'
      obtain ⟨self', address', kept', fds', nodup', some'', length', listed'⟩ :=
        closing.counted k y there'
      refine ⟨self', address', kept', fds', nodup', some'', length', fun f => ?_⟩
      rw [listed']
      exact (update_stays update (by rw [data]; exact mine) f).symm
  case once => exact once
  case pooled =>
    intro k member
    rcases pools k member with ⟨rfl, one⟩ | before
    · exact own.trans (if_pos (ends.mpr one))
    · have ne : k ≠ key := fun same => fresh (same ▸ before)
      exact (other ne).trans (closing.pooled k before)

theorem unregister_closing (closing : p.Closing) (used : (p.world.sel.fds fd).used = true) :
    ∃ q, p.unregister fd = .ok q ∧ q.Closing ∧
      q.world.sel.fds = Function.update p.world.sel.fds fd itemInit := by
  rcases closing.owned fd used with owner | owner | ⟨key, x, there, owner⟩
  · exact passive_closing closing used (congrArg Prod.snd owner) (.inl (congrArg Prod.fst owner))
  · exact passive_closing closing used (congrArg Prod.snd owner) (.inr (congrArg Prod.fst owner))
  · exact record_closing closing used there owner

/-! ## The whole table -/

/-- The loop goes through, and leaves none of its items. -/
theorem unregisterAll_closing (is : List Nat) (closing : p.Closing) :
    ∃ q, p.unregisterAll is = .ok q ∧ q.Closing ∧
      ∀ fd, (q.world.sel.fds fd).used = true →
        (p.world.sel.fds fd).used = true ∧ ∀ i ∈ is, fd ≠ (i : Int) := by
  induction is generalizing p with
  | nil => exact ⟨p, rfl, closing, fun fd used => ⟨used, fun i member => absurd member List.not_mem_nil⟩⟩
  | cons i is ih =>
    have step : ∃ q, (if (p.world.sel.fds i).used then p.unregister i else .ok p) = .ok q ∧ q.Closing ∧
        ∀ fd, (q.world.sel.fds fd).used = true → (p.world.sel.fds fd).used = true ∧ fd ≠ (i : Int) := by
      by_cases used : (p.world.sel.fds i).used = true
      · obtain ⟨q, ran, after, update⟩ := unregister_closing closing used
        rw [if_pos used]
        refine ⟨q, ran, after, fun fd used' => ?_⟩
        obtain ⟨ne, same⟩ := update_others update fd used'
        exact ⟨same ▸ used', ne⟩
      · rw [if_neg used]
        exact ⟨p, rfl, closing, fun fd used' => ⟨used', fun same => used (same ▸ used')⟩⟩
    obtain ⟨q, ran, after, fewer⟩ := step
    obtain ⟨r, rest, last, none'⟩ := ih after
    refine ⟨r, ?_, last, fun fd used => ?_⟩
    · unfold Process.unregisterAll at rest ⊢
      rw [List.foldlM_cons, ran]
      exact rest
    · obtain ⟨used', others⟩ := none' fd used
      obtain ⟨before, ne⟩ := fewer fd used'
      exact ⟨before, List.forall_mem_cons.mpr ⟨ne, others⟩⟩

theorem sound_closing (sound : p.Sound base) (tidy : p.world.sel.Tidy) : p.Closing := by
  constructor
  case valid => exact tidy.valid
  case owned =>
    intro fd used
    rcases sound.used fd used with ⟨-, passive | passive⟩ | own
    · exact .inl passive
    · exact .inr (.inl passive)
    · exact .inr (.inr own)
  case counted =>
    intro key x there
    obtain ⟨self, address, live⟩ := sound.live key x there
    have accounted := sound_accounted live
    obtain ⟨fds, nodup, length, items⟩ := accounted.items
    obtain ⟨_, _, footing, -⟩ := sound_footing live
    have first : x.2.clientFd ∈ fds := (items _).mp footing.client.holds
    refine ⟨self, address, accounted.unreleased, fds, nodup, List.ne_nil_of_mem first, length,
      fun fd => (items fd).symm.trans ?_⟩
    rw [← self]
    rfl
  case once => exact sound.pooled
  case pooled => exact fun key member => (sound.unpooled key member).1

/-- Whenever the loop of `main` ends, `selector_destroy` finds the record of each item in use and
releases it with its last one: no item is left, no connection is in use, and the pools, which are
freed next, have no record twice. -/
theorem shutdown_releases (start : mainProcess others socks mng dissectors heap users admins = some p)
    (run : Run Process.Step p ls p') (keeps : ∀ q ∈ ls, q.1.KeepsCount q.2) :
    ∃ q, p'.selectorDestroy = .ok q ∧ q.Released := by
  have sound := run_sound start run keeps
  have closing := sound_closing sound (run_tidy start run keeps)
  obtain ⟨q, ran, after, none'⟩ := unregisterAll_closing (List.range p'.world.sel.fdSize) closing
  have items : ∀ fd, (q.world.sel.fds fd).used = false := by
    intro fd
    by_contra used
    rw [Bool.not_eq_false] at used
    obtain ⟨before, missed⟩ := none' fd used
    have valid := closing.valid fd before
    simp only [invalidFd, decide_eq_false_iff_not] at valid
    refine missed fd.toNat (List.mem_range.mpr ?_) (by omega)
    rw [sound.span]
    omega
  refine ⟨q, ran, items, fun key => ?_, after.once⟩
  cases there : q.part key with
  | none => rfl
  | some x =>
    obtain ⟨-, -, -, fds, -, some', -, listed⟩ := after.counted key x there
    obtain ⟨fd, more, rfl⟩ := List.exists_cons_of_ne_nil some'
    have used := ((listed fd).mp (.head _)).1
    rw [items fd] at used
    cases used

theorem shutdown_releases_first : ∃ p' q : Process, (p'.part 7).isSome = true ∧
    p'.selectorDestroy = .ok q ∧ q.Released := by
  have plays : (userServer.bind fun p => p.play greeted).any (fun p => (p.part 7).isSome) = true := by
    decide +kernel
  obtain ⟨p, ls, p', start, run, -, keeps, there⟩ := served rfl plays
  obtain ⟨q, ran, released⟩ := shutdown_releases start run keeps
  exact ⟨p', q, there, ran, released⟩

end

end SocksProxy
