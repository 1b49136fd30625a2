import Mathlib.Data.List.Induction
import SocksProxy.Dissection
import SocksProxy.Lib.Live

/-!
# The blocks of the dissector

The blocks from number `base` on are those that the dissector allocates. `Needs`
says which of them a state still refers to; a byte that `Leaks` drops one that is
not freed, or leaves one behind that `pass_read_reset` does not look at.
-/

namespace SocksProxy

open Lib Scanner

/-- The state still refers to the block. -/
def DissecParser.Needs (p : DissecParser) (c : Nat) : Prop :=
  match p.current with
  | .userWordSearch => False
  | .userRead => p.currentIndex ≠ 0 ∧ p.username = some c
  | .passWordSearch => p.username = some c
  | .passRead => p.username = some c ∨ p.currentIndex ≠ 0 ∧ p.password = some c

/-- A name is given up after its first byte, or a password that is empty or not ASCII. -/
def DissecParser.Leaks (p : DissecParser) (b : UInt8) : Prop :=
  match p.current with
  | .userRead =>
    p.currentIndex ≠ 0 ∧ (255 ≤ p.currentIndex ∨ p.last = true ∧ b ≠ 0x0A ∨ ¬b ≤ 127)
  | .passRead =>
    p.currentIndex < 255 ∧ (p.currentIndex = 0 ∧ b = 0x0A ∨ p.last = false ∧ ¬b ≤ 127)
  | .userWordSearch | .passWordSearch => False

instance (p : DissecParser) (b : UInt8) : Decidable (p.Leaks b) := by
  unfold DissecParser.Leaks
  split <;> exact inferInstance

/-- The live blocks are the ones the state needs. -/
def Balanced (base : Nat) (heap : Heap) (p : DissecParser) : Prop :=
  ∀ c, base ≤ c → (heap.Live c ↔ p.Needs c)

/-- What the bytes that do not leak keep. -/
structure Owns (base : Nat) (heap : Heap) (p : DissecParser) : Prop where
  balanced : Balanced base heap p
  own : ∀ c, p.Needs c → base ≤ c
  fresh : heap.Fresh
  low : base ≤ heap.next

section
variable {user : Ptr} {heap heap₁ heap₂ : Heap} {ptr q : Ptr} {p p' : DissecParser} {b x : UInt8}
  {base n : Nat}

/-! ## The calls -/

/-- After `checkSize` the block of the field is live, and the one it had before is not. -/
theorem field_live (fresh : heap.Fresh) (sized : checkSize heap ptr n = .ok (q, heap₁))
    (stored : heap₁.store q n x = .ok heap₂) :
    heap₂.Fresh ∧ heap.next ≤ heap₂.next ∧
      ∃ a, q = some a ∧ (heap.next ≤ a ∨ ptr = some a ∧ n ≠ 0) ∧
        ∀ c, heap₂.Live c ↔ c = a ∨ heap.Live c ∧ (n = 0 ∨ ptr ≠ some c) := by
  obtain ⟨same, live⟩ := store_live stored
  by_cases whole : n % bufferSize = 0
  · by_cases zero : n = 0
    · simp only [checkSize, if_pos whole, if_pos zero, Except.ok.injEq, Prod.mk.injEq] at sized
      obtain ⟨rfl, rfl⟩ := sized
      obtain ⟨next, more⟩ := malloc_live heap (n + bufferSize)
      have here : ∀ c, heap₂.Live c ↔ c = heap.next ∨ heap.Live c ∧ (n = 0 ∨ ptr ≠ some c) := by
        intro c
        rw [live, more]
        simp [zero]
      refine ⟨fresh.of_live (by omega) fun c alive => ?_, by omega, _, rfl, .inl (Nat.le_refl _), here⟩
      rcases (here c).mp alive with rfl | ⟨old, -⟩
      · exact .inl (by omega)
      · exact .inr old
    · simp only [checkSize, if_pos whole, if_neg zero] at sized
      obtain ⟨⟨b, grown⟩, resized, sized⟩ := bind_eq_ok.mp sized
      simp only [Except.ok.injEq, Prod.mk.injEq] at sized
      obtain ⟨rfl, rfl⟩ := sized
      obtain ⟨a, rfl, rfl, next, more⟩ := realloc_live resized
      have here : ∀ c, heap₂.Live c ↔ c = heap.next ∨ heap.Live c ∧ (n = 0 ∨ some a ≠ some c) := by
        intro c
        rw [live, more]
        simp [zero, eq_comm]
      refine ⟨fresh.of_live (by omega) fun c alive => ?_, by omega, _, rfl, .inl (Nat.le_refl _), here⟩
      rcases (here c).mp alive with rfl | ⟨old, -⟩
      · exact .inl (by omega)
      · exact .inr old
  · have zero : n ≠ 0 := fun zero => whole (by rw [zero]; rfl)
    simp only [checkSize, if_neg whole, Except.ok.injEq, Prod.mk.injEq] at sized
    obtain ⟨rfl, rfl⟩ := sized
    obtain ⟨⟨a, bytes⟩, loaded, -⟩ := bind_eq_ok.mp stored
    obtain ⟨rfl, alive⟩ := load_live loaded
    refine ⟨fresh.of_live (by omega) fun c alive => .inr ((live c).mp alive), by omega, a, rfl,
      .inr ⟨rfl, zero⟩, fun c => ?_⟩
    rw [live]
    by_cases here : c = a
    · simp [here, alive]
    · simp [here, zero, Ne.symm here]

theorem userReadReset_eq (h : userReadReset p b = .ok p') : p'.current = .userWordSearch := by
  obtain ⟨first, -, reset⟩ := bind_eq_ok.mp h
  cases reset
  rfl

/-- A name is dropped before its first byte. -/
theorem userReadReset_owns (owns : Owns base heap p) (current : p.current = .userRead)
    (empty : p.currentIndex = 0) (h : userReadReset p b = .ok p') : Owns base heap p' := by
  have idle := userReadReset_eq h
  have nothing : ∀ c, ¬p.Needs c := by
    intro c
    simp [DissecParser.Needs, current, empty]
  have nothing' : ∀ c, ¬p'.Needs c := by
    intro c
    simp [DissecParser.Needs, idle]
  refine ⟨fun c low => ?_, fun c need => absurd need (nothing' c), owns.fresh, owns.low⟩
  rw [owns.balanced c low, iff_false_intro (nothing c), iff_false_intro (nothing' c)]

/-- A block of the field is written: of what the state needed only that may be replaced. -/
theorem field_owns {others : Nat → Prop} (owns : Owns base heap p)
    (needs : ∀ c, p.Needs c ↔ others c ∨ n ≠ 0 ∧ ptr = some c)
    (apart : ∀ c, others c → n ≠ 0 → ptr ≠ some c)
    (sized : checkSize heap ptr n = .ok (q, heap₁)) (stored : heap₁.store q n x = .ok heap₂)
    (needs' : ∀ c, p'.Needs c ↔ others c ∨ q = some c) : Owns base heap₂ p' := by
  obtain ⟨fresh, next, a, rfl, new, live⟩ := field_live owns.fresh sized stored
  have low := owns.low
  refine ⟨fun c late => ?_, fun c need => ?_, fresh, by omega⟩
  · rw [live, owns.balanced c late, needs, needs']
    constructor
    · rintro (rfl | ⟨other | ⟨some, here⟩, zero | elsewhere⟩)
      · exact .inr rfl
      · exact .inl other
      · exact .inl other
      · exact absurd zero some
      · exact absurd here elsewhere
    · rintro (other | here)
      · refine .inr ⟨.inl other, ?_⟩
        by_cases zero : n = 0
        · exact .inl zero
        · exact .inr (apart c other zero)
      · exact .inl (Option.some.inj here).symm
  · rcases (needs' c).mp need with other | here
    · exact owns.own c ((needs c).mpr (.inl other))
    · obtain rfl := Option.some.inj here
      rcases new with late | ⟨old, some⟩
      · omega
      · exact owns.own _ ((needs _).mpr (.inr ⟨some, old⟩))

/-! ## The handlers -/

theorem Owns.same (owns : Owns base heap p) (needs : ∀ c, p'.Needs c ↔ p.Needs c) :
    Owns base heap p' := by
  refine ⟨fun c low => ?_, fun c need => owns.own c ((needs c).mp need), owns.fresh, owns.low⟩
  rw [owns.balanced c low, needs]

theorem userWordSearch_owns (owns : Owns base heap p) (current : p.current = .userWordSearch)
    (h : userWordSearchHandler p b = .ok p') : Owns base heap p' := by
  refine owns.same fun c => ?_
  have before : ¬p.Needs c := by simp [DissecParser.Needs, current]
  refine iff_of_false ?_ before
  obtain ⟨expected, -, h⟩ := bind_eq_ok.mp h
  split at h
  · split at h
    · cases h
      simp [DissecParser.Needs]
    · cases h
      simp [DissecParser.Needs]
  · obtain ⟨first, -, h⟩ := bind_eq_ok.mp h
    cases h
    simp [DissecParser.Needs]

theorem userRead_owns (owns : Owns base heap p) (current : p.current = .userRead)
    (quiet : ¬p.Leaks b) (h : userReadHandler heap p b = .ok (heap₂, p')) :
    Owns base heap₂ p' := by
  have needs : ∀ c, p.Needs c ↔ False ∨ p.currentIndex ≠ 0 ∧ p.username = some c := by
    intro c
    simp [DissecParser.Needs, current]
  have reset : (255 ≤ p.currentIndex ∨ p.last = true ∧ b ≠ 0x0A ∨ ¬b ≤ 127) →
      (do return (heap, ← userReadReset p b)) = Except.ok (heap₂, p') → Owns base heap₂ p' := by
    intro given h
    obtain ⟨r, ran, h⟩ := bind_eq_ok.mp h
    cases h
    refine userReadReset_owns owns current ?_ ran
    by_contra some
    exact quiet (by simp only [DissecParser.Leaks, current]; exact ⟨some, given⟩)
  unfold userReadHandler at h
  split at h
  · rename_i full
    exact reset (.inl full) h
  split at h
  · rename_i broken
    rw [Bool.and_eq_true, decide_eq_true_eq] at broken
    exact reset (.inr (.inl broken)) h
  split at h
  · cases h
    exact owns.same fun c => by simp [DissecParser.Needs, current]
  split at h
  · obtain ⟨⟨q, heap₁⟩, sized, h⟩ := bind_eq_ok.mp h
    obtain ⟨heap₃, stored, h⟩ := bind_eq_ok.mp h
    cases h
    exact field_owns owns needs (fun _ none => none.elim) sized stored fun c => by
      simp [DissecParser.Needs]
  split at h
  · obtain ⟨⟨q, heap₁⟩, sized, h⟩ := bind_eq_ok.mp h
    obtain ⟨heap₃, stored, h⟩ := bind_eq_ok.mp h
    cases h
    exact field_owns owns needs (fun _ none => none.elim) sized stored fun c => by
      simp [DissecParser.Needs]
  · rename_i high
    exact reset (.inr (.inr high)) h

theorem passWordSearch_owns (owns : Owns base heap p) (current : p.current = .passWordSearch)
    (h : passWordSearchHandler heap p b = .ok (heap₂, p')) : Owns base heap₂ p' := by
  have needs : ∀ c, p.Needs c ↔ p.username = some c := by
    intro c
    simp [DissecParser.Needs, current]
  obtain ⟨expected, -, h⟩ := bind_eq_ok.mp h
  split at h
  · split at h
    · cases h
      exact owns.same fun c => by simp [DissecParser.Needs, current]
    · cases h
      exact owns.same fun c => by simp [DissecParser.Needs, current]
  · obtain ⟨heap₁, freed, h⟩ := bind_eq_ok.mp h
    obtain ⟨first, -, h⟩ := bind_eq_ok.mp h
    cases h
    obtain ⟨next, live⟩ := free_live freed
    have low := owns.low
    refine ⟨fun c late => ?_, nofun, ?_, by omega⟩
    · rw [live, owns.balanced c late, needs]
      simp [DissecParser.Needs]
    · exact owns.fresh.of_live (by omega) fun c alive => .inr ((live c).mp alive).1

theorem passReadReset_parts (h : passReadReset heap p b = .ok (heap₂, p')) : ∃ heap₁,
    (if p.currentIndex ≠ 0 then heap.free p.password else .ok heap) = .ok heap₁ ∧
      heap₁.free p.username = .ok heap₂ ∧ p'.current = .userWordSearch := by
  unfold passReadReset at h
  split at h
  · rename_i some
    obtain ⟨heap₁, first, h⟩ := bind_eq_ok.mp h
    obtain ⟨heap₃, second, h⟩ := bind_eq_ok.mp h
    obtain ⟨start, -, h⟩ := bind_eq_ok.mp h
    cases h
    exact ⟨heap₁, by rw [if_pos some, first], second, rfl⟩
  · rename_i zero
    obtain ⟨heap₁, first, h⟩ := bind_eq_ok.mp h
    obtain ⟨heap₃, second, h⟩ := bind_eq_ok.mp h
    obtain ⟨start, -, h⟩ := bind_eq_ok.mp h
    cases h
    exact ⟨heap₁, by rw [if_neg zero, first], second, rfl⟩

/-- Both blocks go, the password's if it has a byte. -/
theorem passReadReset_owns (held : ∀ c, base ≤ c → heap.Live c →
      p.username = some c ∨ p.currentIndex ≠ 0 ∧ p.password = some c)
    (fresh : heap.Fresh) (low : base ≤ heap.next)
    (h : passReadReset heap p b = .ok (heap₂, p')) : Owns base heap₂ p' := by
  obtain ⟨heap₁, first, second, idle⟩ := passReadReset_parts h
  have nothing : ∀ c, ¬p'.Needs c := by
    intro c
    simp [DissecParser.Needs, idle]
  have password : heap₁.next = heap.next ∧
      ∀ c, heap₁.Live c ↔ heap.Live c ∧ ¬(p.currentIndex ≠ 0 ∧ p.password = some c) := by
    split at first
    · rename_i some
      obtain ⟨next, live⟩ := free_live first
      exact ⟨next, fun c => by simp [live, some]⟩
    · rename_i zero
      cases first
      exact ⟨rfl, fun c => by simp [zero]⟩
  obtain ⟨next, live⟩ := free_live second
  have left : ∀ c, heap₂.Live c ↔ (heap.Live c ∧ ¬(p.currentIndex ≠ 0 ∧ p.password = some c)) ∧
      p.username ≠ some c := fun c => by rw [live, password.2]
  refine ⟨fun c late => iff_of_false ?_ (nothing c), fun c need => absurd need (nothing c), ?_,
    by omega⟩
  · intro alive
    obtain ⟨⟨old, other⟩, apart⟩ := (left c).mp alive
    rcases held c late old with username | both
    · exact apart username
    · exact other both
  · exact fresh.of_live (by omega) fun c alive => .inr ((left c).mp alive).1.1

theorem passRead_owns (owns : Owns base heap p) (current : p.current = .passRead)
    (apart : p.currentIndex ≠ 0 → p.username ≠ p.password) (quiet : ¬p.Leaks b)
    (h : passReadHandler user heap p b = .ok (heap₂, p')) : Owns base heap₂ p' := by
  have needs : ∀ c, p.Needs c ↔
      p.username = some c ∨ p.currentIndex ≠ 0 ∧ p.password = some c := by
    intro c
    simp [DissecParser.Needs, current]
  have split' : ∀ c, p.username = some c → p.currentIndex ≠ 0 → p.password ≠ some c :=
    fun c username some same => apart some (username.trans same.symm)
  have held : ∀ c, base ≤ c → heap.Live c →
      p.username = some c ∨ p.currentIndex ≠ 0 ∧ p.password = some c :=
    fun c late alive => (needs c).mp ((owns.balanced c late).mp alive)
  unfold passReadHandler at h
  split at h
  · exact passReadReset_owns held owns.fresh owns.low h
  rename_i room
  split at h
  · exact passReadReset_owns held owns.fresh owns.low h
  rename_i whole
  split at h
  · cases h
    exact owns.same fun c => by simp [DissecParser.Needs, current]
  split at h
  · rename_i isLf
    have some : p.currentIndex ≠ 0 := by
      intro zero
      refine quiet ?_
      simp only [DissecParser.Leaks, current]
      exact ⟨by omega, .inl ⟨zero, isLf⟩⟩
    obtain ⟨⟨q, heap₁⟩, sized, h⟩ := bind_eq_ok.mp h
    obtain ⟨heap₃, stored, h⟩ := bind_eq_ok.mp h
    obtain ⟨⟨_, nameBytes⟩, -, h⟩ := bind_eq_ok.mp h
    obtain ⟨⟨_, passBytes⟩, -, h⟩ := bind_eq_ok.mp h
    obtain ⟨username, -, h⟩ := bind_eq_ok.mp h
    obtain ⟨pass, -, h⟩ := bind_eq_ok.mp h
    obtain ⟨fresh, next, a, rfl, -, live⟩ := field_live owns.fresh sized stored
    have low := owns.low
    refine passReadReset_owns (fun c late alive => ?_) fresh (by omega) h
    rcases (live c).mp alive with rfl | ⟨old, zero | other⟩
    · exact .inr ⟨some, rfl⟩
    · exact absurd zero some
    · exact .inl ((held c late old).resolve_right fun both => other both.2)
  split at h
  · obtain ⟨⟨q, heap₁⟩, sized, h⟩ := bind_eq_ok.mp h
    obtain ⟨heap₃, stored, h⟩ := bind_eq_ok.mp h
    cases h
    exact field_owns owns needs split' sized stored fun c => by simp [DissecParser.Needs]
  · rename_i notCr notLf high
    refine absurd ?_ quiet
    have waiting : p.last = false := by
      cases pending : p.last with
      | false => rfl
      | true => exact absurd (by simp [pending, notLf]) whole
    simp only [DissecParser.Leaks, current]
    exact ⟨by omega, .inr ⟨waiting, high⟩⟩

theorem dissects_apart {s : Scanner} (h : Dissects heap p s) (current : p.current = .passRead)
    (some : p.currentIndex ≠ 0) : p.username ≠ p.password := by
  cases s with
  | userWord k => exact absurd (current.symm.trans h.1) (by decide)
  | username bytes last => exact absurd (current.symm.trans h.1) (by decide)
  | passWord name k => exact absurd (current.symm.trans h.1) (by decide)
  | password name bytes last =>
    obtain ⟨-, index, -, -, -, apart⟩ := h
    exact apart fun none => some (by rw [index, none]; rfl)

theorem feed_owns {s : Scanner} (owns : Owns base heap p) (h : Dissects heap p s)
    (quiet : ¬p.Leaks b) (fed : dissecParserFeed user (heap, p) b = .ok (heap₂, p')) :
    Owns base heap₂ p' := by
  cases current : p.current with
  | userWordSearch =>
    simp only [dissecParserFeed, current] at fed
    obtain ⟨r, ran, fed⟩ := bind_eq_ok.mp fed
    cases fed
    exact userWordSearch_owns owns current ran
  | userRead =>
    simp only [dissecParserFeed, current] at fed
    exact userRead_owns owns current quiet fed
  | passWordSearch =>
    simp only [dissecParserFeed, current] at fed
    exact passWordSearch_owns owns current fed
  | passRead =>
    simp only [dissecParserFeed, current] at fed
    exact passRead_owns owns current (dissects_apart h current) quiet fed

/-- The state is idle, and a block of before is still live. -/
theorem unbalanced {c : Nat} (idle : p'.current = .userWordSearch) (late : base ≤ c)
    (alive : heap₂.Live c) : ¬Balanced base heap₂ p' := by
  intro balanced
  have needed := (balanced c late).mp alive
  simp [DissecParser.Needs, idle] at needed

theorem userRead_leaks {s : Scanner} (owns : Owns base heap p) (h : Dissects heap p s)
    (current : p.current = .userRead) (leaks : p.Leaks b)
    (fed : userReadHandler heap p b = .ok (heap₂, p')) : ¬Balanced base heap₂ p' := by
  simp only [DissecParser.Leaks, current] at leaks
  obtain ⟨some, given⟩ := leaks
  have alive : ∃ c, p.username = Option.some c ∧ heap.Live c := by
    cases s with
    | username bytes last =>
      obtain ⟨-, index, -, field⟩ := h
      obtain ⟨c, block, username, -, here, -⟩ := field fun none => some (by rw [index, none]; rfl)
      exact ⟨c, username, by simp [Heap.Live, here]⟩
    | userWord k => exact absurd (current.symm.trans h.1) (by decide)
    | passWord name k => exact absurd (current.symm.trans h.1) (by decide)
    | password name bytes last => exact absurd (current.symm.trans h.1) (by decide)
  obtain ⟨c, username, alive⟩ := alive
  have late : base ≤ c := owns.own c (by
    simp only [DissecParser.Needs, current]
    exact ⟨some, username⟩)
  have reset : (do return (heap, ← userReadReset p b)) = Except.ok (heap₂, p') →
      ¬Balanced base heap₂ p' := by
    intro fed
    obtain ⟨r, ran, fed⟩ := bind_eq_ok.mp fed
    cases fed
    exact unbalanced (userReadReset_eq ran) late alive
  unfold userReadHandler at fed
  split at fed
  · exact reset fed
  rename_i room
  split at fed
  · exact reset fed
  rename_i whole
  have high : ¬b ≤ 127 := by
    rcases given with full | ⟨pending, notLf⟩ | high
    · exact absurd full room
    · exact absurd (by simp [pending, notLf]) whole
    · exact high
  rw [if_neg (by rintro rfl; exact high (by decide)), if_neg (by rintro rfl; exact high (by decide)),
    if_neg high] at fed
  exact reset fed

theorem passRead_leaks {s : Scanner} (owns : Owns base heap p) (h : Dissects heap p s)
    (current : p.current = .passRead) (leaks : p.Leaks b)
    (fed : passReadHandler user heap p b = .ok (heap₂, p')) : ¬Balanced base heap₂ p' := by
  simp only [DissecParser.Leaks, current] at leaks
  obtain ⟨room, given⟩ := leaks
  have alive : ∃ c, p.username = some c ∧ heap.Live c := by
    cases s with
    | password name bytes last =>
      obtain ⟨-, -, -, ⟨c, block, username, -, here, -⟩, -⟩ := h
      exact ⟨c, username, by simp [Heap.Live, here]⟩
    | userWord k => exact absurd (current.symm.trans h.1) (by decide)
    | username bytes last => exact absurd (current.symm.trans h.1) (by decide)
    | passWord name k => exact absurd (current.symm.trans h.1) (by decide)
  obtain ⟨c, username, alive⟩ := alive
  have late : base ≤ c := owns.own c (by
    simp only [DissecParser.Needs, current]
    exact .inl username)
  unfold passReadHandler at fed
  rw [if_neg (by omega)] at fed
  rcases given with ⟨zero, isLf⟩ | ⟨waiting, high⟩
  · -- the block of the NUL is new, and the reset skips it
    rw [if_neg (by simp [isLf]), if_neg (by rw [isLf]; decide), if_pos isLf] at fed
    obtain ⟨⟨q, heap₁⟩, sized, fed⟩ := bind_eq_ok.mp fed
    obtain ⟨heap₃, stored, fed⟩ := bind_eq_ok.mp fed
    obtain ⟨⟨_, nameBytes⟩, -, fed⟩ := bind_eq_ok.mp fed
    obtain ⟨⟨_, passBytes⟩, -, fed⟩ := bind_eq_ok.mp fed
    obtain ⟨name, -, fed⟩ := bind_eq_ok.mp fed
    obtain ⟨pass, -, fed⟩ := bind_eq_ok.mp fed
    obtain ⟨-, -, a, rfl, new, live⟩ := field_live owns.fresh sized stored
    obtain ⟨heap₄, first, second, idle⟩ := passReadReset_parts fed
    simp only [zero, ne_eq, not_true_eq_false, if_false, Except.ok.injEq] at first
    subst first
    have next := new.resolve_right fun both => both.2 zero
    have apart : c ≠ a := by
      rintro rfl
      exact owns.fresh c next alive
    have low := owns.low
    refine unbalanced idle (c := a) (by omega) (((free_live second).2 a).mpr ⟨(live a).mpr (.inl rfl), ?_⟩)
    rw [username]
    exact fun same => apart (Option.some.inj same)
  · rw [if_neg (by simp [waiting]), if_neg (by rintro rfl; exact high (by decide)),
      if_neg (by rintro rfl; exact high (by decide)), if_neg high] at fed
    obtain ⟨r, ran, fed⟩ := bind_eq_ok.mp fed
    cases fed
    exact unbalanced (userReadReset_eq ran) late alive

/-- A byte that leaks leaves a live block that the state does not need. -/
theorem feed_leaks {s : Scanner} (owns : Owns base heap p) (h : Dissects heap p s)
    (leaks : p.Leaks b) (fed : dissecParserFeed user (heap, p) b = .ok (heap₂, p')) :
    ¬Balanced base heap₂ p' := by
  cases current : p.current with
  | userWordSearch => exact absurd leaks (by simp [DissecParser.Leaks, current])
  | userRead =>
    simp only [dissecParserFeed, current] at fed
    exact userRead_leaks owns h current leaks fed
  | passWordSearch => exact absurd leaks (by simp [DissecParser.Leaks, current])
  | passRead =>
    simp only [dissecParserFeed, current] at fed
    exact passRead_leaks owns h current leaks fed

/-! ## Streams -/

theorem consume_last (user : Ptr) (pre : List UInt8) (b : UInt8) (σ : Heap × DissecParser) :
    dissecConsume user (pre ++ [b]) σ =
      dissecConsume user pre σ >>= fun τ => dissecParserFeed user τ b := by
  rw [dissecConsume_append]
  congr 1
  funext τ
  rw [dissecConsume]
  cases dissecParserFeed user τ b with
  | error fault => rfl
  | ok υ => rfl

theorem init_owns (fresh : heap.Fresh) (p : DissecParser) :
    Owns heap.next heap (dissecParserInit p) where
  balanced := fun c late => iff_of_false (fresh c late) (by simp [DissecParser.Needs, dissecParserInit])
  own := fun c need => by simp [DissecParser.Needs, dissecParserInit] at need
  fresh := fresh
  low := Nat.le_refl _

/-- After each byte the live blocks are those that the state needs, and no access is wrong,
exactly when no byte leaks. -/
theorem balanced_iff (user : Ptr) (heap : Heap) (p : DissecParser) (fresh : heap.Fresh)
    (bytes : List UInt8) :
    (∀ pre, pre <+: bytes → ∃ heap' p',
        dissecConsume user pre (heap, dissecParserInit p) = .ok (heap', p') ∧
          Balanced heap.next heap' p') ↔
      ∀ pre b, pre ++ [b] <+: bytes → ∀ heap' p',
        dissecConsume user pre (heap, dissecParserInit p) = .ok (heap', p') → ¬p'.Leaks b := by
  have reached : (∀ pre b heap' p' s, pre ++ [b] <+: bytes →
        dissecConsume user pre (heap, dissecParserInit p) = .ok (heap', p') →
        Dissects heap' p' s → Owns heap.next heap' p' → ¬p'.Leaks b) →
      ∀ pre, pre <+: bytes → ∃ heap' p' s,
        dissecConsume user pre (heap, dissecParserInit p) = .ok (heap', p') ∧
          Dissects heap' p' s ∧ Owns heap.next heap' p' := by
    intro quiet pre before
    induction pre using List.reverseRecOn with
    | nil => exact ⟨heap, _, idle, rfl, init_holds heap p, init_owns fresh p⟩
    | append_singleton pre b ih =>
      obtain ⟨heap₁, p₁, s, ran, holds, owns⟩ := ih ((List.prefix_append _ _).trans before)
      obtain ⟨heap₂, p₂, fed, holds', -⟩ := dissecParserFeed_refines user b holds
      have still := quiet pre b heap₁ p₁ s before ran holds owns
      refine ⟨heap₂, p₂, _, ?_, holds', feed_owns owns holds still fed⟩
      rw [consume_last, ran, ok_bind, fed]
  constructor
  · intro balanced
    have quiet : ∀ pre b heap' p' s, pre ++ [b] <+: bytes →
        dissecConsume user pre (heap, dissecParserInit p) = .ok (heap', p') →
        Dissects heap' p' s → Owns heap.next heap' p' → ¬p'.Leaks b := by
      intro pre b heap₁ p₁ s before ran holds owns leaks
      obtain ⟨heap₂, p₂, fed, -, -⟩ := dissecParserFeed_refines user b holds
      obtain ⟨heap₃, p₃, ran', after⟩ := balanced (pre ++ [b]) before
      rw [consume_last, ran, ok_bind, fed, Except.ok.injEq, Prod.mk.injEq] at ran'
      obtain ⟨rfl, rfl⟩ := ran'
      exact feed_leaks owns holds leaks fed after
    intro pre b before heap' p' ran
    obtain ⟨heap₁, p₁, s, ran', holds, owns⟩ :=
      reached quiet pre ((List.prefix_append _ _).trans before)
    rw [ran, Except.ok.injEq, Prod.mk.injEq] at ran'
    obtain ⟨rfl, rfl⟩ := ran'
    exact quiet pre b heap' p' s before ran holds owns
  · intro quiet pre before
    obtain ⟨heap', p', s, ran, -, owns⟩ := reached
      (fun pre b heap' p' _ before ran _ _ => quiet pre b before heap' p' ran) pre before
    exact ⟨heap', p', ran, owns.balanced⟩

end

/-- The login `u`, `p` leaves nothing behind. -/
theorem balanced_iff_login :
    let p : DissecParser := ⟨.userWordSearch, 0, false, none, none, []⟩
    ∀ pre, pre <+: loginOf [117] → ∃ heap' p',
      dissecConsume none pre (.empty, dissecParserInit p) = .ok (heap', p') ∧
        Balanced 0 heap' p' := by
  intro p
  refine (balanced_iff none .empty p (fun _ _ live => live rfl) (loginOf [117])).mpr ?_
  rintro pre b ⟨rest, split⟩ heap' p' ran leaks
  have small : pre.length < (loginOf [117]).length := by
    rw [← split]
    simp
  have quiet : ∀ n < (loginOf [117]).length,
      (dissecConsume none ((loginOf [117]).take n) (.empty, dissecParserInit p)).toOption.all
        (fun r => (loginOf [117])[n]?.all fun b => decide (¬r.2.Leaks b)) = true := by
    decide +kernel
  have here := quiet pre.length small
  have first : (loginOf [117]).take pre.length = pre := by
    rw [← split, List.append_assoc, List.take_left]
  have last : (loginOf [117])[pre.length]? = some b := by
    rw [← split]
    simp
  rw [first, ran, last] at here
  exact of_decide_eq_true here leaks

/-- "user a" and a byte that is not ASCII: the block of the name is not freed. -/
theorem abandoned_name_leaks : ¬∀ (user : Ptr) (heap : Heap) (p : DissecParser), heap.Fresh →
    ∀ bytes pre, pre <+: bytes → ∃ heap' p',
      dissecConsume user pre (heap, dissecParserInit p) = .ok (heap', p') ∧
        Balanced heap.next heap' p' := by
  intro all
  let bytes : List UInt8 := [0x75, 0x73, 0x65, 0x72, 0x20, 0x61, 0x80]
  obtain ⟨heap', p', ran, balanced⟩ := all none .empty ⟨.userWordSearch, 0, false, none, none, []⟩
    (fun _ _ live => live rfl) bytes bytes (List.prefix_refl _)
  have left : (dissecConsume none bytes (.empty, dissecParserInit
      ⟨.userWordSearch, 0, false, none, none, []⟩)).toOption.map
        (fun r => (r.1.block 0, r.2.current)) = some (some [0x61, 0, 0, 0, 0], .userWordSearch) := by
    decide
  simp only [ran, Except.toOption, Option.map_some, Option.some.injEq, Prod.mk.injEq] at left
  exact unbalanced left.2 (Nat.zero_le 0) (by simp [Heap.Live, left.1]) balanced

end SocksProxy
