import SocksProxy.Reach
import SocksProxy.Passage

/-!
# What the relay and the end of a connection touch

A relay event counts the bytes that it moved, and the end of the relay once. The end of
the connection gives up its items and closes its descriptors.
-/

namespace SocksProxy

open Lib

/-- The bytes that a call moved. -/
def Call.moved : Call → Nat
  | .recv _ (some bytes) | .send _ (some bytes) => bytes.length
  | _ => 0

def movedBy (calls : List Call) : Nat := (calls.map Call.moved).sum

theorem movedBy_append (xs ys : List Call) : movedBy (xs ++ ys) = movedBy xs + movedBy ys := by
  unfold movedBy
  rw [List.map_append, List.sum_append]

/-- What a relay event that returned `ret` counts. -/
structure Relays (ret : Nat) (more : List Call) (marks : List Mark) : Prop where
  threads : more.count .threadCreated = 0
  counted : more.count .counted = 0
  kept : .released ∉ more
  ended : marks.count .ended = if ret = SocksV5State.done.num then 1 else 0
  bytes : bytesOf marks = movedBy more

section
variable {own : Int → Prop} {free : Prop} {o : Outcome} {fd : Int} {c d e : Conn} {ret : Nat}
  {I : Side → FdInterest}

/-! ## COPY -/

theorem copyComputeInterests_acts {x : CopySt} (mine : x.fd = -1 ∨ own x.fd)
    (h : copyComputeInterests x c = .ok d) : c.Acts own fd free [] [] d := by
  simp only [copyComputeInterests] at h
  split at h
  · rename_i isOpen
    split at h
    · obtain rfl := Except.ok.inj h
      exact acts_setInterest _ _ (.inr (mine.resolve_left isOpen))
    · cases h
  · obtain rfl := Except.ok.inj h
    exact acts_fields rfl rfl rfl rfl (List.append_nil _).symm (List.forall_mem_nil _) rfl rfl

theorem side_mine (mine : c.Mine own) (side : Side) : c.fdOf side = -1 ∨ own (c.fdOf side) := by
  cases side with
  | client => exact .inr mine.client
  | orig => exact mine.origin

theorem copyInit_behaves (mine : c.Mine own) (h : copyInit fd c = .ok d) :
    c.Behaves own fd free d := by
  simp only [copyInit] at h
  obtain ⟨e, first, second⟩ := bind_eq_ok.mp h
  have stored : c.Behaves own fd free { c with
      client := .copy ⟨c.clientFd, .readBuffer, .writeBuffer, opReadWrite, .orig⟩
      orig := .copy ⟨c.originFd, .writeBuffer, .readBuffer, opReadWrite, .client⟩ } :=
    behaves_quiet rfl rfl rfl rfl rfl rfl rfl
  have plain : Plain 0 0 [] [] := plain_nil
  have origin := stored.trans ⟨[], [], copyComputeInterests_acts mine.origin first, plain⟩
  exact origin.trans ⟨[], [], copyComputeInterests_acts (.inr mine.client) second, plain⟩

/-- The end of a relay event counts the end of the relay and nothing else. -/
theorem copyFinish_acts {side : Side} (shape : c.Copying I) (mine : c.Mine own)
    (h : copyFinish side c = .ok (ret, d)) :
    c.Acts own fd free [] (if ret = SocksV5State.done.num then [.ended] else []) d := by
  simp only [copyFinish, shape side, ok_bind] at h
  obtain ⟨e, first, h⟩ := bind_eq_ok.mp h
  obtain ⟨sel, rfl, -⟩ := copyComputeInterests_ok first
  have one : c.Acts own fd free [] [] { c with sel := sel } :=
    copyComputeInterests_acts (side_mine mine side) first
  simp only [shape side.other, ok_bind] at h
  obtain ⟨e', second, h⟩ := bind_eq_ok.mp h
  have two := one.trans (copyComputeInterests_acts (side_mine mine side.other) second)
  split at h
  · obtain ⟨rfl, rfl⟩ := Prod.mk.inj (Except.ok.inj h)
    refine two.trans (acts_record rfl rfl rfl rfl (List.append_nil _).symm (by simp) ?_ rfl (by simp)
      (touches_same rfl rfl rfl))
    constructor <;> rfl
  · obtain ⟨rfl, rfl⟩ := Prod.mk.inj (Except.ok.inj h)
    exact two

theorem shutdowns_silent (c : Socks5) (side : Side) (how otherHow : How) :
    ∀ call ∈ shutdowns c side how otherHow, call.Silent ∧ call.moved = 0 := by
  intro call member
  unfold shutdowns at member
  rcases List.mem_cons.mp member with rfl | member
  · exact ⟨trivial, rfl⟩
  · split at member
    · obtain rfl := List.mem_singleton.mp member
      exact ⟨trivial, rfl⟩
    · cases member

theorem movedBy_still {more : List Call} (still : ∀ call ∈ more, call.moved = 0) :
    movedBy more = 0 := by
  unfold movedBy
  rw [List.sum_eq_zero]
  intro n member
  obtain ⟨call, there, rfl⟩ := List.mem_map.mp member
  exact still call there

/-- A relay event makes its call, counts its bytes, and then perhaps the end. -/
theorem relays_of {more : List Call} {marks : List Mark} (silent : ∀ call ∈ more, call.Silent)
    (going : .ended ∉ marks) (bytes : bytesOf marks = movedBy more) :
    Relays ret more (marks ++ if ret = SocksV5State.done.num then [.ended] else []) := by
  have plain := plain_silent silent
  refine ⟨plain.threads, plain.counted, plain.kept, ?_, ?_⟩
  · rw [List.count_append, List.count_eq_zero.mpr going]
    split <;> rfl
  · rw [bytesOf_append, bytes]
    split <;> rfl

/-- A direction ends after a call that moved nothing. -/
theorem copyEnds_acts {side : Side} {how otherHow : How} {drop otherDrop : FdInterest → FdInterest}
    {call : Call} (shape : c.Copying I) (mine : c.Mine own) (silent : call.Silent)
    (still : call.moved = 0)
    (h : (copyClose side ⟨c.fdOf side, side.rb, side.wb, I side, side.other⟩ how otherHow drop
      otherDrop (c.log call) >>= fun c => copyFinish side c) = .ok (ret, d)) :
    ∃ more marks, c.Acts own fd free more marks d ∧ Relays ret more marks := by
  obtain ⟨e, closed, h⟩ := bind_eq_ok.mp h
  obtain ⟨I', shape', -, -, client, orig, rfl⟩ :=
    copyClose_ok (c := c.log call) (fun s => shape s) closed
  have each : ∀ x ∈ call :: shutdowns (c.log call).toSocks5 side how otherHow,
      x.Silent ∧ x.moved = 0 := by
    intro x member
    rcases List.mem_cons.mp member with rfl | member
    · exact ⟨silent, still⟩
    · exact shutdowns_silent _ _ _ _ x member
  have quiet : ∀ x ∈ call :: shutdowns (c.log call).toSocks5 side how otherHow, x.Silent :=
    fun x member => (each x member).1
  have ends : c.Acts own fd free (call :: shutdowns (c.log call).toSocks5 side how otherHow) []
      { c.log call with
        client := client, orig := orig
        calls := (c.log call).calls ++ shutdowns (c.log call).toSocks5 side how otherHow } :=
    acts_fields rfl rfl rfl rfl (List.append_assoc _ _ _) quiet rfl rfl
  have finished := ends.trans (copyFinish_acts shape' (mine.acts ends) h)
  rw [List.append_nil] at finished
  exact ⟨_, _, finished, relays_of quiet List.not_mem_nil
    (movedBy_still fun x member => (each x member).2).symm⟩

/-- Bytes move in a call, and are counted. -/
theorem copyMoves_acts {side : Side} {r : BufferRef} {b : Buffer} {call : Call} {mark : Mark}
    (heap : Heap) (dissector : DissecParser) (shape : c.Copying I) (mine : c.Mine own)
    (silent : call.Silent) (counts : Marked [call] [mark]) (going : mark ≠ .ended)
    (bytes : mark.bytes = call.moved)
    (touches : Relation.ReflTransGen (Touch free) c.storage (heap, c.users, dissector))
    (h : copyFinish side (({ c.log call with
      heap := heap, dissecParser := dissector, metrics := mark.apply c.metrics } : Conn).setBuffer
        r b) = .ok (ret, d)) :
    ∃ more marks, c.Acts own fd free more marks d ∧ Relays ret more marks := by
  have quiet : ∀ x ∈ [call], x.Silent := fun x member => List.mem_singleton.mp member ▸ silent
  have plain := plain_silent quiet
  have shape' := copying_setBuffer (c := { c.log call with
    heap := heap, dissecParser := dissector, metrics := mark.apply c.metrics }) (I := I)
    (fun s => shape s) r b
  have moves : c.Acts own fd free [call] [mark] (({ c.log call with
      heap := heap, dissecParser := dissector, metrics := mark.apply c.metrics } : Conn).setBuffer
        r b) := by
    cases r with
    | readBuffer =>
      refine acts_record rfl rfl rfl rfl rfl plain.kept counts rfl ?_ touches
      rw [plain.threads, List.replicate_zero, List.append_nil]
      rfl
    | writeBuffer =>
      refine acts_record rfl rfl rfl rfl rfl plain.kept counts rfl ?_ touches
      rw [plain.threads, List.replicate_zero, List.append_nil]
      rfl
  have finished := moves.trans (copyFinish_acts shape' (mine.acts moves) h)
  rw [List.append_nil] at finished
  refine ⟨_, _, finished, relays_of quiet ?_ ?_⟩
  · rw [List.mem_singleton]
    exact fun same => going same.symm
  · simpa [bytesOf, movedBy] using bytes

theorem copyRead_acts (shape : c.Copying I) (mine : c.Mine own)
    (h : copyRead o fd c = .ok (ret, d)) :
    ∃ more marks, c.Acts own fd free more marks d ∧ Relays ret more marks := by
  simp only [copyRead] at h
  split at h
  · cases h
  · rename_i side found
    obtain rfl := copyPtr_some found
    have silent : ∀ got, (Call.recv (c.fdOf side) got).Silent := fun _ => trivial
    simp only [shape side, ok_bind, ne_eq, not_true_eq_false, if_false] at h
    split at h
    · rename_i got
      rw [got] at h
      exact copyEnds_acts shape mine (silent none) rfl h
    · rename_i got
      rw [got] at h
      exact copyEnds_acts shape mine (silent (some [])) rfl h
    · rename_i byte bytes got
      rw [got] at h
      have counts : Marked [.recv (c.fdOf side) (some (byte :: bytes))] [.read (bytes.length + 1)] := by
        constructor <;> rfl
      split at h
      · obtain ⟨s, fed, h⟩ := bind_eq_ok.mp h
        exact copyMoves_acts s.1 s.2 shape mine (silent _) counts (by simp) rfl
          (.single (.inspect _ _ fed)) h
      · exact copyMoves_acts c.heap c.dissecParser shape mine (silent _) counts (by simp) rfl .refl h

theorem copyWrite_acts (shape : c.Copying I) (mine : c.Mine own)
    (h : copyWrite o fd c = .ok (ret, d)) :
    ∃ more marks, c.Acts own fd free more marks d ∧ Relays ret more marks := by
  simp only [copyWrite] at h
  split at h
  · cases h
  · rename_i side found
    obtain rfl := copyPtr_some found
    have silent : ∀ sent, (Call.send (c.fdOf side) sent).Silent := fun _ => trivial
    simp only [shape side, ok_bind, ne_eq, not_true_eq_false, if_false] at h
    split at h
    · rename_i sent
      rw [sent] at h
      exact copyEnds_acts shape mine (silent none) rfl h
    · rename_i bytes sent
      rw [sent] at h
      have counts : Marked [.send (c.fdOf side) (some bytes)] [.write bytes.length] := by
        constructor <;> rfl
      exact copyMoves_acts c.heap c.dissecParser shape mine (silent _) counts (by simp) rfl .refl h

/-! ## The end -/

/-- The calls with which a descriptor is given up. -/
def Socks5.parting (c : Socks5) (f : Int) : List Call :=
  if f = -1 then [] else (if c.references = 1 then [.released] else []) ++ [.close f]

theorem parting_plain (c : Socks5) (f : Int) : (c.parting f).count .threadCreated = 0 ∧
    (c.parting f).count .counted = 0 ∧ movedBy (c.parting f) = 0 ∧ Marked (c.parting f) [] := by
  unfold Socks5.parting
  split
  · exact ⟨rfl, rfl, rfl, by constructor <;> rfl⟩
  · split
    · exact ⟨rfl, rfl, rfl, by constructor <;> rfl⟩
    · exact ⟨rfl, rfl, rfl, by constructor <;> rfl⟩

theorem parting_released (c : Socks5) {f : Int} (isOpen : f ≠ -1) :
    (c.parting f).count .released = if c.references = 1 then 1 else 0 := by
  unfold Socks5.parting
  rw [if_neg isOpen]
  split <;> rfl

/-- Taking an item out drops its reference, and the last one releases the record. -/
theorem unregister_item {f : Int} (registered : c.sel.Registered f)
    (owner : (c.sel.fds f).owner = (c.handler, c.self)) :
    (c.unregister f).1 = .success ∧ ∃ sel references socksPool mngPool,
      (c.unregister f).2 = { c with
        sel := sel
        references := references
        socksPool := socksPool
        mngPool := mngPool
        calls := c.calls ++ if c.references = 1 then [.released] else [] } ∧
      sel.fds = Function.update c.sel.fds f itemInit ∧ sel.fdSize = c.sel.fdSize ∧
      sel.resolutionJobs = c.sel.resolutionJobs ∧ (c.sel.Tidy → sel.Tidy) ∧
      socksPool = (if c.isSocks ∧ c.references = 1 then c.socksPool.put c.self else c.socksPool) ∧
      mngPool = (if ¬ c.isSocks ∧ c.references = 1 then c.mngPool.put c.self else c.mngPool) := by
  obtain ⟨status, fds, size, jobs, closed⟩ := unregister_eq handleClose c.sel c f
  rw [if_pos registered] at status fds closed
  have handler : (c.sel.fds f).handler = c.handler := congrArg Prod.fst owner
  have data : (c.sel.fds f).data = c.self := congrArg Prod.snd owner
  refine ⟨status, ?_⟩
  have whole : (c.unregister f).2 = { handleClose (c.sel.fds f) c with
      sel := (selectorUnregisterFd handleClose c.sel c f).2.1 } := by
    unfold Conn.unregister
    simp only
    rw [closed]
  rw [whole]
  refine ⟨(selectorUnregisterFd handleClose c.sel c f).2.1,
    if c.references = 1 then c.references else c.references - 1, _, _, ?_, fds, size, jobs,
    fun tidy => unregister_tidy handleClose c tidy f, rfl, rfl⟩
  cases socks : c.isSocks with
  | true =>
    have kind : c.handler = .socks5 := by rw [Socks5.handler, socks, if_pos rfl]
    by_cases last : c.references = 1
    · simp [handleClose, handler, data, kind, socks5Destroy, last, Conn.log, socks]
    · simp [handleClose, handler, data, kind, socks5Destroy, last, socks]
  | false =>
    have kind : c.handler = .mng := by rw [Socks5.handler, socks, if_neg Bool.false_ne_true]
    by_cases last : c.references = 1
    · simp [handleClose, handler, data, kind, mngDestroy, last, Conn.log, socks]
    · simp [handleClose, handler, data, kind, mngDestroy, last, socks]

theorem doneFd_acts {f : Int} (mine : c.Mine own) (mineF : f = -1 ∨ own f)
    (h : doneFd f c = .ok d) : c.Acts own fd free (c.parting f) [] d ∧ d.isOpen f = false := by
  by_cases closed : f = -1
  · simp only [doneFd, closed, ne_eq, not_true_eq_false, if_false] at h
    obtain rfl := Except.ok.inj h
    rw [Socks5.parting, if_pos closed, closed]
    exact ⟨acts_fields rfl rfl rfl rfl (List.append_nil _).symm (List.forall_mem_nil _) rfl rfl,
      mine.negative⟩
  · have inside : own f := mineF.resolve_left closed
    have registered : c.sel.Registered f := by
      by_contra absent
      have refused : (c.unregister f).1 ≠ .success := by
        change (selectorUnregisterFd handleClose c.sel c f).1 ≠ .success
        rw [(unregister_eq handleClose c.sel c f).1, if_neg absent]
        decide
      simp [doneFd, closed, refused] at h
    obtain ⟨status, sel, references, socksPool, mngPool, whole, fds, size, jobs, tidy, socks, mng⟩ :=
      unregister_item registered (mine.owner f inside registered.2)
    simp only [doneFd, closed, ne_eq, not_false_eq_true, if_true, status] at h
    obtain rfl := Except.ok.inj h
    rw [whole]
    have pools : ({ c with socksPool := socksPool, mngPool := mngPool } : Conn).pool c.isSocks =
          (c.pool c.isSocks).puts c.self ((c.parting f).count .released) ∧
        ({ c with socksPool := socksPool, mngPool := mngPool } : Conn).pool (!c.isSocks) =
          c.pool (!c.isSocks) := by
      rw [parting_released _ closed, socks, mng]
      unfold World.pool
      cases c.isSocks <;> by_cases last : c.references = 1 <;> simp [last, Pool.puts]
    obtain ⟨alone, -, -, counts⟩ := parting_plain c.toSocks5 f
    refine ⟨⟨rfl, rfl, rfl, id, ?_, size, jobs, ?_, ?_, ?_, ?_, pools.1, pools.2, rfl, rfl, ?_, rfl,
      counts, id, .inr ⟨rfl, rfl, rfl⟩, tidy, touches_same rfl rfl rfl⟩, Function.update_self ..⟩
    · rw [Socks5.parting, if_neg closed]
      exact List.append_assoc _ _ _
    · intro g out
      change sel.fds g = c.sel.fds g
      rw [fds]
      apply Function.update_of_ne
      rintro rfl
      exact out inside
    · intro g used
      have used : (sel.fds g).used = true := used
      change (c.sel.fds g).used = true ∧ (sel.fds g).owner = (c.sel.fds g).owner ∨ _
      rw [fds] at used ⊢
      by_cases same : g = f
      · rw [same, Function.update_self] at used
        cases used
      · rw [Function.update_of_ne same] at used ⊢
        exact .inl ⟨used, rfl⟩
    · intro g out
      apply Function.update_of_ne
      rintro rfl
      exact out inside
    · intro g there
      refine .inl ⟨?_, id⟩
      by_cases same : g = f
      · rw [same] at there
        exact absurd (there.symm.trans (Function.update_self ..)) (by decide)
      · exact (Function.update_of_ne same ..).symm.trans there
    · rw [alone, List.replicate_zero, List.append_nil]
      rfl

/-- The end of a connection closes its descriptors and counts nothing. -/
theorem finish_acts (mine : c.Mine own) (h : finish c.isSocks c = .ok d) :
    ∃ more, c.Acts own fd free more [] d ∧ more.count .threadCreated = 0 ∧
      more.count .counted = 0 ∧ movedBy more = 0 ∧ d.isOpen d.clientFd = false ∧ (c.isSocks = true → d.isOpen d.originFd = false) := by
  have origin : ∀ {f : Int} {c d : Conn}, doneFd f c = .ok d → d.originFd = c.originFd := by
    intro f c d ran
    obtain ⟨_, _, record, -⟩ := doneFd_record ran
    rw [record]
  cases kind : c.isSocks with
  | true =>
    rw [kind] at h
    have h : socksv5Done c = .ok d := h
    simp only [socksv5Done] at h
    obtain ⟨e, first, second⟩ := bind_eq_ok.mp h
    obtain ⟨acts, gone⟩ : c.Acts own fd free (c.parting c.clientFd) [] e ∧
        e.isOpen c.clientFd = false := doneFd_acts mine (.inr mine.client) first
    have mine' := mine.acts acts
    have here := mine'.origin
    rw [origin first] at here
    obtain ⟨acts', gone'⟩ : e.Acts own fd free (e.parting c.originFd) [] d ∧
        d.isOpen c.originFd = false := doneFd_acts mine' here second
    have whole := acts.trans acts'
    have same : d.originFd = c.originFd := (origin second).trans (origin first)
    refine ⟨_, whole, ?_, ?_, ?_, ?_, fun _ => ?_⟩
    · rw [List.count_append, (parting_plain _ _).1, (parting_plain _ _).1]
    · rw [List.count_append, (parting_plain _ _).2.1, (parting_plain _ _).2.1]
    · rw [movedBy_append, (parting_plain _ _).2.2.1, (parting_plain _ _).2.2.1]
    · rw [whole.clientFd]
      by_contra there
      rw [Bool.not_eq_false] at there
      rcases acts'.opened _ there with ⟨before, -⟩ | hit
      · exact absurd (before.symm.trans gone) (by decide)
      · rw [hit, same, gone'] at there
        cases there
    · rw [same]
      exact gone'
  | false =>
    rw [kind] at h
    have h : doneFd c.clientFd c = .ok d := h
    obtain ⟨acts, gone⟩ : c.Acts own fd free (c.parting c.clientFd) [] d ∧
        d.isOpen c.clientFd = false := doneFd_acts mine (.inr mine.client) h
    refine ⟨_, acts, (parting_plain _ _).1, (parting_plain _ _).2.1, (parting_plain _ _).2.2.1, ?_,
      fun socks => absurd socks (by decide)⟩
    rw [acts.clientFd]
    exact gone

end

end SocksProxy
