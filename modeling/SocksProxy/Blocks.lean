import Mathlib.Logic.Relation
import SocksProxy.Leaks
import SocksProxy.Lib.Shared

/-!
# What a connection does to the heap

The dissector of a connection touches only the blocks that its state needs, and new ones;
a management request changes the table of the users. Nothing else writes to the heap.
-/

namespace SocksProxy

open Lib

/-- The blocks of a table. -/
def UserTable.Holds (t : UserTable) (c : Nat) : Prop :=
  ∃ i < t.nusers, (t.slots i).name = some c ∨ (t.slots i).pass = some c

/-- What feeding the dissector does to the heap. -/
structure Minds (heap : Heap) (p : DissecParser) (heap' : Heap) (p' : DissecParser) : Prop where
  confined : heap.Confined p.Needs heap'
  needs : ∀ c, p'.Needs c → p.Needs c ∨ heap.next ≤ c

section
variable {user ptr q : Ptr} {heap heap' heap'' heap₁ heap₂ : Heap} {p p' p'' : DissecParser}
  {b x : UInt8} {n : Nat} {s : Scanner}

/-! ## The dissector -/

theorem Minds.trans (first : Minds heap p heap' p') (second : Minds heap' p' heap'' p'') :
    Minds heap p heap'' p'' where
  confined := by
    refine first.confined.trans second.confined fun c low needed => ?_
    rcases first.needs c needed with before | late
    · exact before
    · exact absurd low (Nat.not_lt.mpr late)
  needs := by
    intro c needed
    rcases second.needs c needed with before | late
    · exact first.needs c before
    · exact .inr (Nat.le_trans first.confined.next late)

/-- The state needs no more, and the heap stays. -/
theorem minds_same (needs : ∀ c, p'.Needs c → p.Needs c) : Minds heap p heap p' :=
  ⟨.refl _ _, fun c needed => .inl (needs c needed)⟩

theorem checkSize_confined (sized : checkSize heap ptr n = .ok (q, heap₁)) :
    heap.Confined (fun c => n ≠ 0 ∧ ptr = some c) heap₁ ∧
      ∀ c, q = some c → n ≠ 0 ∧ ptr = some c ∨ heap.next ≤ c := by
  unfold checkSize at sized
  split at sized
  · split at sized
    · obtain ⟨rfl, rfl⟩ := Prod.mk.inj (Except.ok.inj sized)
      refine ⟨(malloc_confined heap _).mono fun _ none' => none'.elim, fun c same => .inr ?_⟩
      exact Nat.le_of_eq (Option.some.inj same)
    · rename_i some
      obtain ⟨⟨a, grown⟩, resized, sized⟩ := bind_eq_ok.mp sized
      obtain ⟨rfl, rfl⟩ := Prod.mk.inj (Except.ok.inj sized)
      refine ⟨(realloc_confined resized).mono fun _ same => ⟨some, same⟩, fun c same => .inr ?_⟩
      obtain ⟨-, -, new, -⟩ := realloc_live resized
      exact Nat.le_of_eq (new.symm.trans (Option.some.inj same))
  · rename_i part
    have some : n ≠ 0 := fun zero => part (by rw [zero]; rfl)
    obtain ⟨rfl, rfl⟩ := Prod.mk.inj (Except.ok.inj sized)
    exact ⟨.refl _ _, fun c same => .inl ⟨some, same⟩⟩

/-- A byte is written into the block of a field. -/
theorem field_minds (field : ∀ c, n ≠ 0 → ptr = some c → p.Needs c)
    (sized : checkSize heap ptr n = .ok (q, heap₁)) (stored : heap₁.store q n x = .ok heap₂)
    (needs : ∀ c, p'.Needs c → p.Needs c ∨ q = some c) : Minds heap p heap₂ p' := by
  obtain ⟨confined, new⟩ := checkSize_confined sized
  have mine : ∀ c, q = some c → p.Needs c ∨ heap.next ≤ c := by
    intro c same
    rcases new c same with ⟨some, old⟩ | late
    · exact .inl (field c some old)
    · exact .inr late
  constructor
  · refine (confined.mono fun c old => field c old.1 old.2).trans (store_confined stored) ?_
    intro c low same
    exact (mine c same).resolve_right (Nat.not_le.mpr low)
  · intro c needed
    rcases needs c needed with before | same
    · exact .inl before
    · exact mine c same

theorem userReadReset_minds (h : userReadReset p b = .ok p') : Minds heap p heap p' := by
  have idle := userReadReset_eq h
  refine minds_same fun c needed => ?_
  simp only [DissecParser.Needs, idle] at needed

theorem userWordSearch_minds (h : userWordSearchHandler p b = .ok p') : Minds heap p heap p' := by
  refine minds_same fun c needed => ?_
  obtain ⟨expected, -, h⟩ := bind_eq_ok.mp h
  split at h
  · split at h
    · obtain rfl := Except.ok.inj h
      simp [DissecParser.Needs] at needed
    · obtain rfl := Except.ok.inj h
      simp [DissecParser.Needs] at needed
  · obtain ⟨first, -, h⟩ := bind_eq_ok.mp h
    obtain rfl := Except.ok.inj h
    simp [DissecParser.Needs] at needed

theorem userRead_minds (current : p.current = .userRead)
    (h : userReadHandler heap p b = .ok (heap₂, p')) : Minds heap p heap₂ p' := by
  have field : ∀ c, p.currentIndex ≠ 0 → p.username = some c → p.Needs c := by
    intro c some name
    simp only [DissecParser.Needs, current]
    exact ⟨some, name⟩
  have reset : (do return (heap, ← userReadReset p b)) = Except.ok (heap₂, p') →
      Minds heap p heap₂ p' := by
    intro h
    obtain ⟨r, ran, h⟩ := bind_eq_ok.mp h
    obtain ⟨rfl, rfl⟩ := Prod.mk.inj (Except.ok.inj h)
    exact userReadReset_minds ran
  unfold userReadHandler at h
  split at h
  · exact reset h
  split at h
  · exact reset h
  split at h
  · obtain ⟨rfl, rfl⟩ := Prod.mk.inj (Except.ok.inj h)
    exact minds_same fun c needed => by simpa [DissecParser.Needs, current] using needed
  split at h
  · obtain ⟨⟨q, heap₁⟩, sized, h⟩ := bind_eq_ok.mp h
    obtain ⟨heap₃, stored, h⟩ := bind_eq_ok.mp h
    obtain ⟨rfl, rfl⟩ := Prod.mk.inj (Except.ok.inj h)
    exact field_minds field sized stored fun c needed => .inr needed
  split at h
  · obtain ⟨⟨q, heap₁⟩, sized, h⟩ := bind_eq_ok.mp h
    obtain ⟨heap₃, stored, h⟩ := bind_eq_ok.mp h
    obtain ⟨rfl, rfl⟩ := Prod.mk.inj (Except.ok.inj h)
    exact field_minds field sized stored fun c needed => .inr needed.2
  · exact reset h

theorem passWordSearch_minds (current : p.current = .passWordSearch)
    (h : passWordSearchHandler heap p b = .ok (heap₂, p')) : Minds heap p heap₂ p' := by
  obtain ⟨expected, -, h⟩ := bind_eq_ok.mp h
  split at h
  · split at h
    · obtain ⟨rfl, rfl⟩ := Prod.mk.inj (Except.ok.inj h)
      exact minds_same fun c needed => by simpa [DissecParser.Needs, current] using needed
    · obtain ⟨rfl, rfl⟩ := Prod.mk.inj (Except.ok.inj h)
      exact minds_same fun c needed => by simpa [DissecParser.Needs, current] using needed
  · obtain ⟨heap₁, freed, h⟩ := bind_eq_ok.mp h
    obtain ⟨first, -, h⟩ := bind_eq_ok.mp h
    obtain ⟨rfl, rfl⟩ := Prod.mk.inj (Except.ok.inj h)
    refine ⟨(free_confined freed).mono fun c name => ?_, fun c needed => ?_⟩
    · simp only [DissecParser.Needs, current]
      exact name
    · simp [DissecParser.Needs] at needed

theorem passReadReset_minds (current : p.current = .passRead)
    (h : passReadReset heap p b = .ok (heap₂, p')) : Minds heap p heap₂ p' := by
  obtain ⟨heap₁, first, second, idle⟩ := passReadReset_parts h
  have password : heap.Confined p.Needs heap₁ := by
    split at first
    · rename_i some
      refine (free_confined first).mono fun c word => ?_
      simp only [DissecParser.Needs, current]
      exact .inr ⟨some, word⟩
    · obtain rfl := Except.ok.inj first
      exact .refl _ _
  refine ⟨password.trans (free_confined second) fun c _ name => ?_, fun c needed => ?_⟩
  · simp only [DissecParser.Needs, current]
    exact .inl name
  · simp only [DissecParser.Needs, idle] at needed

theorem passRead_minds (current : p.current = .passRead)
    (h : passReadHandler user heap p b = .ok (heap₂, p')) : Minds heap p heap₂ p' := by
  have field : ∀ c, p.currentIndex ≠ 0 → p.password = some c → p.Needs c := by
    intro c some word
    simp only [DissecParser.Needs, current]
    exact .inr ⟨some, word⟩
  have written : ∀ {c q} {printed : List PopLogin} {index : Nat},
      ({ p with password := q, printed := printed, currentIndex := index } : DissecParser).Needs c →
        p.Needs c ∨ q = some c := by
    intro c q printed index needed
    simp only [DissecParser.Needs, current] at needed ⊢
    rcases needed with name | ⟨-, word⟩
    · exact .inl (.inl name)
    · exact .inr word
  unfold passReadHandler at h
  split at h
  · exact passReadReset_minds current h
  split at h
  · exact passReadReset_minds current h
  split at h
  · obtain ⟨rfl, rfl⟩ := Prod.mk.inj (Except.ok.inj h)
    exact minds_same fun c needed => by simpa [DissecParser.Needs, current] using needed
  split at h
  · obtain ⟨⟨q, heap₁⟩, sized, h⟩ := bind_eq_ok.mp h
    obtain ⟨heap₃, stored, h⟩ := bind_eq_ok.mp h
    obtain ⟨⟨_, nameBytes⟩, -, h⟩ := bind_eq_ok.mp h
    obtain ⟨⟨_, passBytes⟩, -, h⟩ := bind_eq_ok.mp h
    obtain ⟨username, -, h⟩ := bind_eq_ok.mp h
    obtain ⟨pass, -, h⟩ := bind_eq_ok.mp h
    exact (field_minds field sized stored fun c needed => written needed).trans
      (passReadReset_minds current h)
  split at h
  · obtain ⟨⟨q, heap₁⟩, sized, h⟩ := bind_eq_ok.mp h
    obtain ⟨heap₃, stored, h⟩ := bind_eq_ok.mp h
    obtain ⟨rfl, rfl⟩ := Prod.mk.inj (Except.ok.inj h)
    refine field_minds field sized stored fun c needed => ?_
    simp only [DissecParser.Needs, current] at needed ⊢
    rcases needed with name | ⟨-, word⟩
    · exact .inl (.inl name)
    · exact .inr word
  · obtain ⟨r, ran, h⟩ := bind_eq_ok.mp h
    obtain ⟨rfl, rfl⟩ := Prod.mk.inj (Except.ok.inj h)
    exact userReadReset_minds ran

theorem feed_minds (fed : dissecParserFeed user (heap, p) b = .ok (heap₂, p')) :
    Minds heap p heap₂ p' := by
  cases current : p.current with
  | userWordSearch =>
    simp only [dissecParserFeed, current] at fed
    obtain ⟨r, ran, fed⟩ := bind_eq_ok.mp fed
    obtain ⟨rfl, rfl⟩ := Prod.mk.inj (Except.ok.inj fed)
    exact userWordSearch_minds ran
  | userRead =>
    simp only [dissecParserFeed, current] at fed
    exact userRead_minds current fed
  | passWordSearch =>
    simp only [dissecParserFeed, current] at fed
    exact passWordSearch_minds current fed
  | passRead =>
    simp only [dissecParserFeed, current] at fed
    exact passRead_minds current fed

theorem consume_minds {bytes : List UInt8}
    (fed : dissecConsume user bytes (heap, p) = .ok (heap₂, p')) : Minds heap p heap₂ p' := by
  induction bytes generalizing heap p with
  | nil =>
    obtain ⟨rfl, rfl⟩ := Prod.mk.inj (Except.ok.inj fed)
    exact minds_same fun _ => id
  | cons b bytes ih =>
    obtain ⟨⟨heap₁, p₁⟩, first, rest⟩ := bind_eq_ok.mp fed
    exact (feed_minds first).trans (ih rest)

/-- The blocks of a state of the machine are live. -/
theorem dissects_live (h : Dissects heap p s) {c : Nat} (needed : p.Needs c) : heap.Live c := by
  have growing : ∀ {ptr bytes}, Growing heap ptr bytes → bytes.length ≠ 0 → ptr = some c →
      heap.Live c := by
    intro ptr bytes field some name
    obtain ⟨a, block, rfl, -, here, -⟩ := field fun none' => some (by rw [none']; rfl)
    obtain rfl := Option.some.inj name
    simp [Heap.Live, here]
  have ended : ∀ {ptr bytes}, Ended heap ptr bytes → ptr = some c → heap.Live c := by
    rintro ptr bytes ⟨a, block, rfl, -, here, -⟩ name
    obtain rfl := Option.some.inj name
    simp [Heap.Live, here]
  cases s with
  | userWord k =>
    simp only [DissecParser.Needs, h.1] at needed
  | username bytes last =>
    obtain ⟨current, index, -, field⟩ := h
    simp only [DissecParser.Needs, current, index] at needed
    exact growing field needed.1 needed.2
  | passWord name k =>
    obtain ⟨current, -, -, -, text⟩ := h
    simp only [DissecParser.Needs, current] at needed
    exact ended text needed
  | password name bytes last =>
    obtain ⟨current, index, -, text, field, -⟩ := h
    simp only [DissecParser.Needs, current, index] at needed
    rcases needed with name | ⟨some, word⟩
    · exact ended text name
    · exact growing field some word

/-- What others do with their own blocks leaves the state where it is. -/
theorem dissects_framed (h : Dissects heap p s) (next : heap.next ≤ heap'.next)
    (same : ∀ c, p.Needs c → heap'.block c = heap.block c) : Dissects heap' p s := by
  have growing : ∀ {ptr bytes}, Growing heap ptr bytes →
      (∀ c, bytes.length ≠ 0 → ptr = some c → p.Needs c) → Growing heap' ptr bytes := by
    intro ptr bytes field mine some
    obtain ⟨a, block, name, low, here, front⟩ := field some
    refine ⟨a, block, name, Nat.lt_of_lt_of_le low next, ?_, front⟩
    rw [same a (mine a (fun zero => some (List.length_eq_zero_iff.mp zero)) name), here]
  have ended : ∀ {ptr bytes}, Ended heap ptr bytes → (∀ c, ptr = some c → p.Needs c) →
      Ended heap' ptr bytes := by
    rintro ptr bytes ⟨a, block, name, low, here, front⟩ mine
    exact ⟨a, block, name, Nat.lt_of_lt_of_le low next, (same a (mine a name)).trans here, front⟩
  cases s with
  | userWord k => exact h
  | username bytes last =>
    obtain ⟨current, index, pending, field⟩ := h
    refine ⟨current, index, pending, growing field fun c some name => ?_⟩
    simp only [DissecParser.Needs, current, index]
    exact ⟨some, name⟩
  | passWord name k =>
    obtain ⟨current, index, pending, bound, text⟩ := h
    refine ⟨current, index, pending, bound, ended text fun c name => ?_⟩
    simp only [DissecParser.Needs, current]
    exact name
  | password name bytes last =>
    obtain ⟨current, index, pending, text, field, apart⟩ := h
    refine ⟨current, index, pending, ended text fun c name => ?_,
      growing field fun c some word => ?_, apart⟩
    · simp only [DissecParser.Needs, current]
      exact .inl name
    · simp only [DissecParser.Needs, current, index]
      exact .inr ⟨some, word⟩

theorem consume_dissects {bytes : List UInt8} (h : Dissects heap p s)
    (fed : dissecConsume user bytes (heap, p) = .ok (heap', p')) : ∃ s', Dissects heap' p' s' := by
  induction bytes generalizing heap p s with
  | nil =>
    obtain ⟨rfl, rfl⟩ := Prod.mk.inj (Except.ok.inj fed)
    exact ⟨s, h⟩
  | cons b bytes ih =>
    obtain ⟨⟨heap₁, p₁⟩, first, rest⟩ := bind_eq_ok.mp fed
    obtain ⟨_, _, ran, holds, -⟩ := dissecParserFeed_refines user b h
    obtain ⟨rfl, rfl⟩ := Prod.mk.inj (Except.ok.inj (first.symm.trans ran))
    exact ih holds rest

/-! ## The table of the users -/

/-- A request for the table. -/
def TableOp.Requested : TableOp → Prop
  | .addUser _ _ | .deleteUser _ => True
  | .option _ | .elsewhere _ => False

end

section
variable {heap heap' : Heap} {t t' : UserTable} {ptrs : List (Nat × Nat)} {accounts : List Account}
  {op : TableOp} {c : Nat}

theorem holds_blocks (h : Tabled heap t ptrs accounts) : t.Holds c ↔ c ∈ blocks ptrs := by
  have slot : ∀ i (bound : i < ptrs.length), t.slots i = slotOf ptrs[i] := by
    intro i bound
    have held := h.slots i _ (List.getElem?_eq_getElem bound)
    rwa [Nat.zero_add] at held
  constructor
  · rintro ⟨i, bound, here⟩
    rw [h.length] at bound
    rw [slot i bound] at here
    refine List.mem_flatMap.mpr ⟨ptrs[i], List.getElem_mem bound, ?_⟩
    rcases here with name | pass
    · rw [← Option.some.inj name]
      exact .head _
    · rw [← Option.some.inj pass]
      exact .tail _ (.head _)
  · intro member
    obtain ⟨q, listed, here⟩ := List.mem_flatMap.mp member
    obtain ⟨i, bound, rfl⟩ := List.mem_iff_getElem.mp listed
    refine ⟨i, h.length ▸ bound, ?_⟩
    rw [slot i bound]
    simp only [List.mem_cons, List.not_mem_nil, or_false] at here
    rcases here with rfl | rfl
    · exact .inl rfl
    · exact .inr rfl

theorem tabled_framed (h : Tabled heap t ptrs accounts) (fresh : heap'.Fresh)
    (same : ∀ c, t.Holds c → heap'.block c = heap.block c) : Tabled heap' t ptrs accounts :=
  ⟨h.length, h.slots, stored_kept h.stored fun b member => same b ((holds_blocks h).mpr member),
    h.distinct, fun a late => not_not.mp (fresh a late)⟩

theorem appendUser_confined (heap : Heap) (t : UserTable) (name pass : List UInt8) :
    heap.Confined (fun _ => False) (appendUser heap t name pass).1 :=
  (strdup_confined heap name).trans (strdup_confined _ pass) fun _ _ => id

/-- A request changes only strings of the table, and what it adds is new. -/
theorem request_confined (h : Tabled heap t ptrs accounts) (requested : op.Requested)
    (ran : op.apply (heap, t) = .ok (heap', t')) :
    heap.Confined t.Holds heap' ∧ (∀ c, t'.Holds c → t.Holds c ∨ heap.next ≤ c) ∧
      ∃ ptrs', Tabled heap' t' ptrs' (op.listed accounts) := by
  have step : TableStep (heap, t) op (heap', t') := ⟨ran, fun _ same => by
    subst same
    exact requested.elim⟩
  obtain ⟨ptrs', tabled⟩ := step_tabled h step
  cases op with
  | option | elsewhere => exact requested.elim
  | addUser username password =>
    simp only [TableOp.apply] at ran
    split at ran
    · obtain ⟨rfl, rfl⟩ := Prod.mk.inj (Except.ok.inj ran)
      exact ⟨.refl _ _, fun _ => .inl, ptrs', tabled⟩
    · by_cases room : t.nusers < maxUsers
      · rw [addUser_append _ _ room] at ran
        obtain ⟨rfl, rfl⟩ := Prod.mk.inj (Except.ok.inj ran)
        have confined := appendUser_confined heap t (chars username) (chars password)
        refine ⟨confined.mono fun _ => False.elim, fun c held => ?_, ptrs', tabled⟩
        have plain : ∀ u, chars (chars u) = chars u := chars_chars
        have held := (holds_blocks (appendUser_tabled _ _ h (plain username) (plain password))).mp held
        rw [blocks_append, List.mem_append] at held
        rcases held with old | new
        · exact .inl ((holds_blocks h).mpr old)
        · simp only [blocks_cons, blocks_nil, List.mem_cons, List.not_mem_nil, or_false] at new
          omega
      · rw [addUser, if_pos (Nat.le_of_not_lt room)] at ran
        obtain ⟨rfl, rfl⟩ := Prod.mk.inj (Except.ok.inj ran)
        exact ⟨.refl _ _, fun _ => .inl, ptrs', tabled⟩
  | deleteUser username =>
    obtain ⟨_, _, left, erased, tabled', removed⟩ := deleteUser_spec username h
    obtain ⟨rfl, rfl⟩ := Prod.mk.inj (Except.ok.inj (erased.symm.trans ran))
    refine ⟨⟨Nat.le_of_eq removed.next.symm, fun c _ other => ?_, fun fresh c late => ?_⟩,
      fun c held => ?_, ptrs', tabled⟩
    · exact removed.elsewhere c fun member => other ((holds_blocks h).mpr member)
    · exact not_not.mpr (tabled'.fresh c late)
    · rw [holds_blocks tabled'] at held
      exact .inl ((holds_blocks h).mpr ((removed.sub.flatMap _).subset held))

/-! ## The strings of a request -/

theorem cString_read {bytes u : List UInt8} (read : cString bytes = .ok u) : chars bytes = u := by
  induction bytes generalizing u with
  | nil => cases read
  | cons x bytes ih =>
    unfold cString at read
    split at read
    · rename_i zero
      obtain rfl := Except.ok.inj read
      simp [chars, zero]
    · rename_i some
      obtain ⟨rest, more, read⟩ := bind_eq_ok.mp read
      obtain rfl := Except.ok.inj read
      have tail := ih more
      unfold chars at tail ⊢
      rw [List.takeWhile_cons_of_pos (by simpa using some), tail]

/-- A comparison that stays inside both strings sees only the characters of each. -/
theorem strEq_front {bytes stored : List UInt8} {same : Bool} (ran : strEq bytes stored = .ok same) :
    strEq (chars bytes ++ [0]) stored = .ok same := by
  induction bytes generalizing stored with
  | nil => cases ran
  | cons x bytes ih =>
    cases stored with
    | nil => cases ran
    | cons y stored =>
      by_cases zero : x = 0
      · subst zero
        simpa [chars, strEq] using ran
      · have front : chars (x :: bytes) = x :: chars bytes := by
          unfold chars
          rw [List.takeWhile_cons_of_pos (by simpa using zero)]
        rw [front, List.cons_append]
        simp only [strEq] at ran ⊢
        split at ran
        · rename_i differ
          rw [if_pos differ]
          exact ran
        · rename_i agree
          rw [if_neg agree, if_neg zero]
          exact ih ran

theorem deleteLoop_front {bytes : List UInt8} {n i : Nat} {deleted : Bool} {slots : Nat → Users}
    {r : Bool × Heap × (Nat → Users)}
    (ran : deleteLoop (some bytes) n i deleted heap slots = .ok r) :
    deleteLoop (some (chars bytes ++ [0])) n i deleted heap slots = .ok r := by
  induction n generalizing i deleted heap slots with
  | zero => exact ran
  | succ n ih =>
    unfold deleteLoop at ran ⊢
    split at ran
    · rename_i gone
      rw [if_pos gone]
      exact ih ran
    · rename_i going
      rw [if_neg going]
      obtain ⟨same, compared, ran⟩ := bind_eq_ok.mp ran
      have front : strcmpHeap heap (some (chars bytes ++ [0])) (slots i).name = .ok same := by
        obtain ⟨read, here, compared⟩ := bind_eq_ok.mp compared
        obtain ⟨⟨a, stored⟩, loaded, compared⟩ := bind_eq_ok.mp compared
        obtain rfl := Except.ok.inj here
        simp only [strcmpHeap, deref, ok_bind, loaded]
        exact strEq_front compared
      rw [front]
      split at ran
      · rename_i hit
        obtain ⟨heap₁, first, ran⟩ := bind_eq_ok.mp ran
        obtain ⟨heap₂, second, ran⟩ := bind_eq_ok.mp ran
        simp only [ok_bind, if_pos hit, first, second]
        exact ih ran
      · rename_i miss
        simp only [ok_bind, if_neg miss]
        exact ih ran

/-- An addition that goes through is the one of the characters before the NUL of each string. -/
theorem addUser_requested {username password : Option (List UInt8)} (room : t.nusers ≠ maxUsers)
    (ran : addUser heap t username password = .ok (heap', t')) :
    ∃ op : TableOp, op.Requested ∧ op.apply (heap, t) = .ok (heap', t') := by
  by_cases full : maxUsers ≤ t.nusers
  · refine ⟨.addUser [] [], trivial, ?_⟩
    rw [addUser, if_pos full] at ran
    rw [TableOp.apply, if_neg room, addUser, if_pos full]
    exact ran
  · rw [addUser, if_neg full] at ran
    obtain ⟨u, first, ran⟩ := bind_eq_ok.mp ran
    obtain ⟨w, second, ran⟩ := bind_eq_ok.mp ran
    obtain ⟨bytes, -, first⟩ := bind_eq_ok.mp first
    obtain ⟨bytes', -, second⟩ := bind_eq_ok.mp second
    have plain : ∀ {bytes u}, cString bytes = .ok u → cString (u ++ [0]) = .ok u := by
      intro bytes u read
      rw [cString_chars, ← cString_read read, chars_chars]
    refine ⟨.addUser u w, trivial, ?_⟩
    simp only [TableOp.apply, if_neg room, addUser, if_neg full, deref, ok_bind, plain first,
      plain second]
    exact ran

theorem deleteUser_requested {username : Option (List UInt8)}
    (ran : deleteUser heap t username = .ok (heap', t')) :
    ∃ op : TableOp, op.Requested ∧ op.apply (heap, t) = .ok (heap', t') := by
  obtain ⟨⟨deleted, heap₁, slots⟩, looped, left⟩ := bind_eq_ok.mp ran
  cases username with
  | some bytes =>
    refine ⟨.deleteUser (chars bytes), trivial, ?_⟩
    simp only [TableOp.apply, deleteUser, deleteLoop_front looped, ok_bind]
    exact left
  | none =>
    refine ⟨.deleteUser [], trivial, ?_⟩
    have empty : t.nusers = 0 := by
      cases count : t.nusers with
      | zero => rfl
      | succ n =>
        rw [count] at looped
        simp [deleteLoop, strcmpHeap, deref] at looped
    rw [empty] at looped
    have same : deleteLoop (some ([] ++ [0])) t.nusers 0 false heap t.slots =
        .ok (deleted, heap₁, slots) := by
      rw [empty]
      exact looped
    simp only [TableOp.apply, deleteUser, same, ok_bind]
    exact left

end

/-! ## One connection -/

/-- The heap, the table of the users, and the dissector of a connection. -/
abbrev Storage := Heap × UserTable × DissecParser

def Conn.storage (c : Conn) : Storage := (c.heap, c.users, c.dissecParser)

/-- What a handler does to them; only a request that is `free` to changes the table. -/
inductive Touch (free : Prop) : Storage → Storage → Prop
  | inspect (user : Ptr) (bytes : List UInt8) {heap heap' : Heap} {users : UserTable}
      {p p' : DissecParser} : dissecConsume user bytes (heap, p) = .ok (heap', p') →
      Touch free (heap, users, p) (heap', users, p')
  | request (op : TableOp) {heap heap' : Heap} {users users' : UserTable} (p : DissecParser) :
      free → op.Requested → op.apply (heap, users) = .ok (heap', users') →
      Touch free (heap, users, p) (heap', users', p)

theorem Touch.weaken {free free' : Prop} {m m' : Storage} (h : Touch free m m')
    (frees : free → free') : Touch free' m m' := by
  cases h with
  | inspect user bytes fed => exact .inspect user bytes fed
  | request op p isFree requested ran => exact .request op p (frees isFree) requested ran

/-- One touch after the other. -/
def Conn.Touches (free : Prop) (c d : Conn) : Prop :=
  Relation.ReflTransGen (Touch free) c.storage d.storage

theorem touches_same {free : Prop} {c d : Conn} (heap : d.heap = c.heap) (users : d.users = c.users)
    (parser : d.dissecParser = c.dissecParser) : c.Touches free d := by
  have same : d.storage = c.storage := by
    unfold Conn.storage
    rw [heap, users, parser]
  unfold Conn.Touches
  rw [same]

end SocksProxy
