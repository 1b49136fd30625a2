import SocksProxy.Accounts
import SocksProxy.Lib.CString

/-!
# main.c: loading the credentials of the administrators

`line` is the array that `fgets` fills, at first with anything. `alloc` numbers the
calls of `malloc` and says which of them find memory.
-/

namespace SocksProxy

open Lib

/-- `bufferLength`. -/
def bufferLength : Nat := 255

def space : UInt8 := 0x20

structure Loader where
  line : List UInt8
  heap : Heap
  admins : UserTable

/-- `n - 1` in the type `size_t`: `SIZE_MAX` for 0. -/
def sizePred (n : Nat) : Nat := (n + (2 ^ 64 - 1)) % 2 ^ 64

/-- Where `&pass[i]` points to: addresses wrap around, and `pass[SIZE_MAX]` is `pass[-1]`. -/
def charPlace (pass i : Nat) : Nat := (pass + i) % 2 ^ 64

/-- The newline at the end of the password goes. -/
def cutNewline (line : List UInt8) (pass aux : Nat) : Result (List UInt8 × Nat) := do
  let last ← load line (charPlace pass (sizePred aux))
  if last = newline then
    let line ← store line (charPlace pass (sizePred aux)) 0
    .ok (line, sizePred aux)
  else .ok (line, aux)

/-- The copies of the two strings in the next slot. -/
def storePair (alloc : Nat → Bool) (s : Loader) (line : List UInt8) (pass aux : Nat) :
    Result Loader := do
  let length ← strlen line 0
  let (newUsername, heap) := s.heap.mallocOr (alloc (2 * s.admins.nusers)) (length + 1)
  let (newPassword, heap) := heap.mallocOr (alloc (2 * s.admins.nusers + 1)) (aux + 1)
  let heap ← heap.strcpy newUsername line 0
  let heap ← heap.strcpy newPassword line pass
  if maxUsers ≤ s.admins.nusers then .error .outOfBounds
  else
    let slots := Function.update s.admins.slots s.admins.nusers ⟨newUsername, newPassword⟩
    .ok ⟨line, heap, ⟨slots, s.admins.nusers + 1⟩⟩

/-- The body of the loop. -/
def loadLine (alloc : Nat → Bool) (s : Loader) : Result Loader := do
  match ← strchr s.line space with
  | none => .error .nullPointer
  | some found =>
    let line ← store s.line found 0
    let pass := found + 1
    let aux ← strlen line pass
    let (line, aux) ← cutNewline line pass aux
    storePair alloc s line pass aux

theorem fgets_rest {line file : List UInt8} {r : List UInt8 × List UInt8}
    (h : fgets line bufferLength file = some r) : r.2.length < file.length := by
  unfold fgets at h
  split at h
  · cases h
  · rename_i more
    cases h
    exact cutLine_rest 253 more

/-- The loop from the rest of the file on. -/
def loadLoop (alloc : Nat → Bool) (s : Loader) (file : List UInt8) : Result Loader :=
  match _h : fgets s.line bufferLength file with
  | none => .ok s
  | some (line, rest) => do
    let s ← loadLine alloc { s with line }
    loadLoop alloc s rest
termination_by file.length
decreasing_by exact fgets_rest _h

/-- The table is empty when `main` starts. -/
def loadCredentials (alloc : Nat → Bool) (line : List UInt8) (heap : Heap) (file : List UInt8) :
    Result Loader :=
  loadLoop alloc ⟨line, heap, .empty⟩ file

/-! ## What is promised, and when it holds -/

/-- The pieces that `fgets` cuts the file into. -/
def pieces (file : List UInt8) : List (List UInt8) :=
  if _h : file = [] then []
  else
    let r := cutLine (bufferLength - 1) file
    r.1 :: pieces r.2
termination_by file.length
decreasing_by exact cutLine_rest 253 _h

/-- What is behind the first space of the piece, as C reads it. -/
def behindSpace (piece : List UInt8) : List UInt8 :=
  ((chars piece).dropWhile (· ≠ space)).tail

/-- The piece has a space. -/
def Divided (piece : List UInt8) : Prop := space ∈ chars piece

instance (piece : List UInt8) : Decidable (Divided piece) :=
  inferInstanceAs (Decidable (_ ∈ _))

/-- Every piece is divided, there are not too many, and there is memory for all. -/
structure Loadable (alloc : Nat → Bool) (file : List UInt8) : Prop where
  divided : ∀ piece ∈ pieces file, Divided piece
  few : (pieces file).length ≤ maxUsers
  memory : ∀ i < 2 * (pieces file).length, alloc i = true

/-- A line of the file, without its newline. -/
def Account.written (a : Account) : List UInt8 := a.name ++ space :: a.pass

/-- A name without spaces, and a password, in at most 253 characters. -/
structure Account.Short (a : Account) : Prop where
  name : ∀ b ∈ a.name, b ≠ 0 ∧ b ≠ newline ∧ b ≠ space
  pass : ∀ b ∈ a.pass, b ≠ 0 ∧ b ≠ newline
  some : a.pass ≠ []
  length : a.written.length ≤ 253

/-- The file has a line for each account; the last newline may be missing. -/
inductive Lines : List Account → List UInt8 → Prop
  | nil : Lines [] []
  | last (a : Account) : a.Short → Lines [a] a.written
  | line (a : Account) {accounts : List Account} {file : List UInt8} : a.Short →
      Lines accounts file → Lines (a :: accounts) (a.written ++ newline :: file)

/-- `nadmins` accounts, in the order of the file. -/
def Loader.Holds (s : Loader) (accounts : List Account) : Prop :=
  s.admins.nusers = accounts.length ∧ ∃ ptrs, Tabled s.heap s.admins ptrs accounts

/-! ## One line -/

section
variable {alloc : Nat → Bool} {s : Loader} {piece name rest pass post : List UInt8}

/-- The password without its newline. -/
def trimmed (rest : List UInt8) : List UInt8 :=
  if rest.getLast? = some newline then rest.dropLast else rest

theorem trimmed_subset (rest : List UInt8) : trimmed rest ⊆ rest := by
  unfold trimmed
  split
  · exact List.dropLast_subset rest
  · exact List.Subset.refl rest

/-- What the loop takes from a divided piece. -/
def pieceAccount (piece : List UInt8) : Account :=
  ⟨(chars piece).takeWhile (· ≠ space), trimmed (behindSpace piece)⟩

theorem zero_notMem_chars (piece : List UInt8) : (0 : UInt8) ∉ chars piece :=
  chars_of_plain.mp (chars_chars piece)

theorem chars_split (piece old : List UInt8) :
    ∃ post, piece ++ 0 :: old = chars piece ++ 0 :: post := by
  induction piece with
  | nil => exact ⟨old, rfl⟩
  | cons x piece ih =>
    by_cases zero : x = 0
    · exact ⟨piece ++ 0 :: old, by simp [chars, zero]⟩
    · obtain ⟨post, split⟩ := ih
      exact ⟨post, by simpa [chars, zero] using split⟩

theorem chars_divide (has : space ∈ chars piece) :
    chars piece = (pieceAccount piece).name ++ space :: behindSpace piece := by
  have split := List.takeWhile_append_dropWhile (p := (· ≠ space)) (l := chars piece)
  have some : (chars piece).dropWhile (· ≠ space) ≠ [] := by
    intro none
    rw [List.dropWhile_eq_nil_iff] at none
    simpa using none space has
  obtain ⟨b, tail, cut⟩ := List.exists_cons_of_ne_nil some
  have first : b = space := by
    have head := List.head_dropWhile_not (p := (· ≠ space)) (l := chars piece) some
    simp only [cut, List.head_cons] at head
    simpa using head
  rw [behindSpace, cut, List.tail_cons, ← first, ← cut]
  exact split.symm

theorem space_notMem_name (piece : List UInt8) : space ∉ (pieceAccount piece).name := by
  intro member
  have := List.mem_takeWhile_imp member
  simp at this

theorem charPlace_succ {p n : Nat} (small : p + n < 2 ^ 64) :
    charPlace p (sizePred (n + 1)) = p + n := by
  have wraps : n + 1 + (2 ^ 64 - 1) = n + 2 ^ 64 := by omega
  rw [charPlace, sizePred, wraps, Nat.add_mod_right, Nat.add_mod_mod, Nat.mod_eq_of_lt small]

/-- In front of an empty password is the NUL that ends the name. -/
theorem charPlace_zero {p : Nat} (small : p < 2 ^ 64) : charPlace (p + 1) (sizePred 0) = p := by
  have wraps : p + 1 + (0 + (2 ^ 64 - 1)) = p + 2 ^ 64 := by omega
  rw [charPlace, sizePred, Nat.add_mod_mod, wraps, Nat.add_mod_right, Nat.mod_eq_of_lt small]

theorem sizePred_succ {n : Nat} (small : n < 2 ^ 64) : sizePred (n + 1) = n := by
  have wraps : n + 1 + (2 ^ 64 - 1) = n + 2 ^ 64 := by omega
  rw [sizePred, wraps, Nat.add_mod_right, Nat.mod_eq_of_lt small]

theorem cutNewline_rest (name rest : List UInt8) (short : name.length + 1 + rest.length < 2 ^ 64)
    (post : List UInt8) : ∃ post',
      cutNewline (name ++ 0 :: (rest ++ 0 :: post)) (name.length + 1) rest.length =
        .ok (name ++ 0 :: (trimmed rest ++ 0 :: post'), (trimmed rest).length) ∧
      (trimmed rest ++ 0 :: post').length = (rest ++ 0 :: post).length := by
  rcases List.eq_nil_or_concat' rest with rfl | ⟨front, c, rfl⟩
  · -- an empty password: the character looked at is the NUL between the two strings
    refine ⟨post, ?_, rfl⟩
    rw [List.length_nil, cutNewline, charPlace_zero (by omega), load_middle, ok_bind,
      if_neg (by decide : ¬(0 : UInt8) = newline)]
    rfl
  · rw [List.length_append, List.length_singleton] at short ⊢
    have place : name.length + 1 + front.length = (name ++ 0 :: front).length := by simp; omega
    have array : name ++ 0 :: (front ++ [c] ++ 0 :: post) =
        (name ++ 0 :: front) ++ c :: 0 :: post := by
      simp
    rw [cutNewline, charPlace_succ (by omega), sizePred_succ (by omega), array, place, load_middle,
      ok_bind]
    by_cases last : c = newline
    · refine ⟨0 :: post, ?_⟩
      rw [if_pos last, store_middle, ok_bind]
      simp [trimmed, last]
    · refine ⟨post, ?_⟩
      rw [if_neg last]
      simp [trimmed, last]

/-- Memory for both strings of the next slot. -/
def Memory (alloc : Nat → Bool) (n : Nat) : Prop :=
  alloc (2 * n) = true ∧ alloc (2 * n + 1) = true

/-- The array has the name at its start and the password behind it. -/
theorem storePair_spec (alloc : Nat → Bool) (name pass post : List UInt8) (plain : (0 : UInt8) ∉ name)
    (plain' : (0 : UInt8) ∉ pass) (s : Loader) :
    let line := name ++ 0 :: (pass ++ 0 :: post)
    let r := appendUser s.heap s.admins name pass
    (Memory alloc s.admins.nusers ∧ s.admins.nusers < maxUsers →
        storePair alloc s line (name.length + 1) pass.length = .ok ⟨line, r.1, r.2⟩) ∧
      (¬(Memory alloc s.admins.nusers ∧ s.admins.nusers < maxUsers) →
        ∃ f, storePair alloc s line (name.length + 1) pass.length = .error f) := by
  intro line r
  have length : strlen line 0 = .ok name.length := strlen_plain plain [] _
  have first : cString (line.drop 0) = .ok name := cString_plain plain _
  have second : cString (line.drop (name.length + 1)) = .ok pass := by
    have array : line = (name ++ [0]) ++ (pass ++ 0 :: post) := by simp [line]
    have place : name.length + 1 = (name ++ [0]).length := by simp
    rw [array, place, List.drop_left, cString_plain plain']
  simp only [storePair, length, ok_bind]
  cases left : alloc (2 * s.admins.nusers) with
  | false =>
    refine ⟨fun fine => ?_, fun _ => ⟨.nullPointer, ?_⟩⟩
    · exact absurd (left.symm.trans fine.1.1) (by decide)
    · simp [Heap.mallocOr, strcpy_null _ first]
  | true =>
    cases right : alloc (2 * s.admins.nusers + 1) with
    | false =>
      refine ⟨fun fine => ?_, fun _ => ⟨.nullPointer, ?_⟩⟩
      · exact absurd (right.symm.trans fine.1.2) (by decide)
      · have block : ((s.heap.mallocOr true (name.length + 1)).2.mallocOr false
            (pass.length + 1)).2.block s.heap.next = some (List.replicate (name.length + 1) 0) := by
          simp [Heap.mallocOr, Heap.malloc]
        have null := strcpy_null (s := pass)
        simp only [Heap.mallocOr, if_true, Bool.false_eq_true, if_false, Heap.malloc] at block ⊢
        rw [strcpy_fits block first (by simp), ok_bind, null _ second]
        rfl
    | true =>
      have apart : s.heap.next + 1 ≠ s.heap.next := by omega
      let zeros (n : Nat) : Option (List UInt8) := some (List.replicate (n + 1) 0)
      let made : Heap := ⟨Function.update (Function.update s.heap.block s.heap.next
        (zeros name.length)) (s.heap.next + 1) (zeros pass.length), s.heap.next + 2⟩
      have ours : made.block s.heap.next = some (List.replicate (name.length + 1) 0) := by
        simp [made, zeros]
      let half : Heap := { made with
        block := Function.update made.block s.heap.next (some (name ++ [0])) }
      have theirs : half.block (s.heap.next + 1) = some (List.replicate (pass.length + 1) 0) := by
        simp [half, made, zeros]
      have copied : made.strcpy (some s.heap.next) line 0 = .ok half :=
        strcpy_fits ours first (by simp)
      have both : half.strcpy (some (s.heap.next + 1)) line (name.length + 1) = .ok r.1 := by
        rw [strcpy_fits theirs second (by simp)]
        simp only [half, made, r, appendUser, Heap.strdup]
        rw [Function.update_comm apart.symm, Function.update_idem, Function.update_comm apart,
          Function.update_idem]
      have unfolded : (s.heap.mallocOr true (name.length + 1)).2.mallocOr true (pass.length + 1) =
        (some (s.heap.next + 1), made) := rfl
      simp only [unfolded, show (s.heap.mallocOr true (name.length + 1)).1 = some s.heap.next from rfl,
        copied, both, ok_bind]
      by_cases room : s.admins.nusers < maxUsers
      · refine ⟨fun _ => ?_, fun wrong => absurd ⟨⟨left, right⟩, room⟩ wrong⟩
        rw [if_neg (Nat.not_le.mpr room)]
        rfl
      · refine ⟨fun fine => absurd fine.2 room, fun _ => ⟨.outOfBounds, ?_⟩⟩
        rw [if_pos (Nat.le_of_not_lt room)]

/-- One line, whatever the array held before. -/
theorem loadLine_spec (alloc : Nat → Bool) (s : Loader) (piece old : List UInt8) (line : s.line = piece ++ 0 :: old)
    (size : s.line.length = bufferLength) :
    let r := appendUser s.heap s.admins (pieceAccount piece).name (pieceAccount piece).pass
    (Divided piece ∧ Memory alloc s.admins.nusers ∧ s.admins.nusers < maxUsers →
        ∃ line', line'.length = bufferLength ∧ loadLine alloc s = .ok ⟨line', r.1, r.2⟩) ∧
      (¬(Divided piece ∧ Memory alloc s.admins.nusers ∧ s.admins.nusers < maxUsers) →
        ∃ f, loadLine alloc s = .error f) := by
  obtain ⟨post, array⟩ := chars_split piece old
  have plain := zero_notMem_chars piece
  by_cases has : space ∈ chars piece
  · have divide := chars_divide has
    have apart := space_notMem_name piece
    have pass : (pieceAccount piece).pass = trimmed (behindSpace piece) := rfl
    have divided : Divided piece := has
    simp only [pass]
    generalize (pieceAccount piece).name = name at divide apart
    generalize behindSpace piece = rest at divide
    rw [divide, List.mem_append, List.mem_cons, not_or, not_or] at plain
    obtain ⟨inName, -, inRest⟩ := plain
    have whole : s.line = name ++ space :: (rest ++ 0 :: post) := by
      rw [line, array, divide, List.append_assoc, List.cons_append]
    have found : strchr s.line space = .ok (some name.length) := by
      rw [whole]
      exact strchr_found inName apart _
    have stored : store s.line name.length 0 = .ok (name ++ 0 :: (rest ++ 0 :: post)) := by
      rw [whole]
      exact store_middle _ _ _ _
    have measured : strlen (name ++ 0 :: (rest ++ 0 :: post)) (name.length + 1) =
        .ok rest.length := by
      have split : name ++ 0 :: (rest ++ 0 :: post) = (name ++ [0]) ++ (rest ++ 0 :: post) := by simp
      have place : name.length + 1 = (name ++ [0]).length := by simp
      rw [split, place]
      exact strlen_plain inRest _ _
    have sizes := congrArg List.length whole
    simp only [size, List.length_append, List.length_cons] at sizes
    simp only [loadLine, found, stored, measured, ok_bind]
    have short : name.length + 1 + rest.length < 2 ^ 64 := by
      have big : bufferLength < 2 ^ 64 := by decide
      omega
    obtain ⟨post', trim, kept⟩ := cutNewline_rest name rest short post
    have inPass : (0 : UInt8) ∉ trimmed rest := fun zero => inRest (trimmed_subset rest zero)
    obtain ⟨good, bad⟩ := storePair_spec alloc name (trimmed rest) post' inName inPass s
    simp only [trim, ok_bind]
    refine ⟨fun fine => ⟨_, ?_, good fine.2⟩, fun wrong => bad fun fine => wrong ⟨divided, fine⟩⟩
    rw [List.length_append, List.length_cons, kept, sizes, List.length_append, List.length_cons]
  · have absent : strchr s.line space = .ok none := by
      rw [line, array]
      exact strchr_absent plain has (by decide) post
    refine ⟨fun fine => absurd fine.1 has, fun _ => ⟨.nullPointer, ?_⟩⟩
    rw [loadLine, absent]
    rfl

/-! ## The file -/

variable {file : List UInt8} {n : Nat} {ptrs : List (Nat × Nat)} {accounts : List Account}

theorem pieces_nil : pieces [] = [] := by
  rw [pieces]
  exact dif_pos rfl

theorem pieces_cons (more : file ≠ []) : pieces file =
    (cutLine (bufferLength - 1) file).1 :: pieces (cutLine (bufferLength - 1) file).2 := by
  rw [pieces]
  exact dif_neg more

theorem loadLoop_nil (alloc : Nat → Bool) (s : Loader) : loadLoop alloc s [] = .ok s := by
  rw [loadLoop]
  rfl

theorem loadLoop_cons (alloc : Nat → Bool) (s : Loader) (more : file ≠ []) :
    loadLoop alloc s file =
      (loadLine alloc { s with
        line := (cutLine (bufferLength - 1) file).1 ++
          0 :: s.line.drop ((cutLine (bufferLength - 1) file).1.length + 1) } >>= fun t =>
        loadLoop alloc t (cutLine (bufferLength - 1) file).2) := by
  rw [loadLoop]
  split
  · rename_i ended
    simp [fgets, more] at ended
  · rename_i line rest got
    simp only [fgets, more, if_false, Option.some.injEq, Prod.mk.injEq] at got
    rw [← got.1, ← got.2]

/-- The same from slot `n` on, for what is left of the file. -/
def LoadableFrom (alloc : Nat → Bool) (n : Nat) (left : List (List UInt8)) : Prop :=
  (∀ piece ∈ left, Divided piece) ∧ n + left.length ≤ maxUsers ∧
    ∀ i < left.length, Memory alloc (n + i)

theorem loadableFrom_cons {left : List (List UInt8)} (few : n ≤ maxUsers) :
    LoadableFrom alloc n (piece :: left) ↔
      (Divided piece ∧ Memory alloc n ∧ n < maxUsers) ∧ LoadableFrom alloc (n + 1) left := by
  unfold LoadableFrom
  rw [List.forall_mem_cons, List.length_cons]
  constructor
  · rintro ⟨⟨divided, rest⟩, room, memory⟩
    refine ⟨⟨divided, memory 0 (Nat.zero_lt_succ _), by omega⟩, rest, by omega, fun i small => ?_⟩
    have next := memory (i + 1) (by omega)
    rwa [show n + (i + 1) = n + 1 + i by omega] at next
  · rintro ⟨⟨divided, memory, -⟩, rest, room, more⟩
    refine ⟨⟨divided, rest⟩, by omega, fun i small => ?_⟩
    cases i with
    | zero => exact memory
    | succ i =>
      have next := more i (by omega)
      rwa [show n + 1 + i = n + (i + 1) by omega] at next

theorem loadable_iff : LoadableFrom alloc 0 (pieces file) ↔ Loadable alloc file := by
  constructor
  · rintro ⟨divided, few, memory⟩
    refine ⟨divided, by omega, fun i small => ?_⟩
    have both := memory (i / 2) (by omega)
    rw [Nat.zero_add] at both
    rcases Nat.mod_two_eq_zero_or_one i with even | odd
    · rw [show i = 2 * (i / 2) by omega]
      exact both.1
    · rw [show i = 2 * (i / 2) + 1 by omega]
      exact both.2
  · rintro ⟨divided, few, memory⟩
    refine ⟨divided, by omega, fun i small => ?_⟩
    rw [Nat.zero_add]
    exact ⟨memory _ (by omega), memory _ (by omega)⟩

theorem pieceAccount_plain (piece : List UInt8) :
    chars (pieceAccount piece).name = (pieceAccount piece).name ∧
      chars (pieceAccount piece).pass = (pieceAccount piece).pass := by
  have name : (pieceAccount piece).name.Sublist (chars piece) := List.takeWhile_sublist _
  have pass : (pieceAccount piece).pass ⊆ chars piece := fun b member =>
    (List.dropWhile_sublist _).subset ((List.tail_sublist _).subset (trimmed_subset _ member))
  exact ⟨plain_sublist name, chars_of_plain.mpr fun zero => zero_notMem_chars piece (pass zero)⟩

theorem loadLoop_spec (alloc : Nat → Bool) (file : List UInt8) (s : Loader) (size : s.line.length = bufferLength)
    (few : s.admins.nusers ≤ maxUsers) (tabled : Tabled s.heap s.admins ptrs accounts) :
    (LoadableFrom alloc s.admins.nusers (pieces file) → ∃ t ptrs', loadLoop alloc s file = .ok t ∧
        Tabled t.heap t.admins ptrs' (accounts ++ (pieces file).map pieceAccount)) ∧
      (¬LoadableFrom alloc s.admins.nusers (pieces file) →
        ∃ f, loadLoop alloc s file = .error f) := by
  induction file using pieces.induct generalizing s ptrs accounts with
  | case1 =>
    refine ⟨fun _ => ⟨s, ptrs, loadLoop_nil alloc s, by simpa [pieces_nil] using tabled⟩, fun wrong => ?_⟩
    refine absurd ⟨by simp [pieces_nil], ?_, by simp [pieces_nil]⟩ wrong
    simpa [pieces_nil] using few
  | case2 file more r =>
    rename_i ih
    rw [pieces_cons more, loadLoop_cons alloc s more, loadableFrom_cons few]
    have fits := cutLine_length (bufferLength - 1) file
    change (cutLine (bufferLength - 1) file).1.length ≤ _ at fits
    generalize (cutLine (bufferLength - 1) file).1 = piece at fits
    have whole : (piece ++ 0 :: s.line.drop (piece.length + 1)).length = bufferLength := by
      simp only [List.length_append, List.length_cons, List.length_drop, size, bufferLength] at fits ⊢
      omega
    obtain ⟨good, bad⟩ := loadLine_spec alloc
      { s with line := piece ++ 0 :: s.line.drop (piece.length + 1) } piece _ rfl whole
    by_cases fine : Divided piece ∧ Memory alloc s.admins.nusers ∧ s.admins.nusers < maxUsers
    · obtain ⟨line, size', loaded⟩ := good fine
      have plain := pieceAccount_plain piece
      have tabled' := appendUser_tabled (pieceAccount piece).name (pieceAccount piece).pass tabled
        plain.1 plain.2
      have room : (appendUser s.heap s.admins (pieceAccount piece).name
        (pieceAccount piece).pass).2.nusers ≤ maxUsers := fine.2.2
      obtain ⟨first, second⟩ := ih ⟨line, _, _⟩ size' room tabled'
      rw [loaded, ok_bind, and_iff_right fine, List.map_cons]
      refine ⟨fun rest => ?_, second⟩
      obtain ⟨t, ptrs', ran, held⟩ := first rest
      exact ⟨t, ptrs', ran, by simpa using held⟩
    · obtain ⟨f, failed⟩ := bad fine
      exact ⟨fun all => absurd all.1 fine, fun _ => ⟨f, by rw [failed, error_bind]⟩⟩

/-! ## Files of short lines -/

theorem written_chars {a : Account} (short : a.Short) {tail : List UInt8}
    (plain : (0 : UInt8) ∉ tail) : chars (a.written ++ tail) = a.written ++ tail := by
  rw [chars_of_plain]
  simp only [Account.written, List.mem_append, List.mem_cons, not_or]
  exact ⟨⟨fun zero => (short.name 0 zero).1 rfl, by decide, fun zero => (short.pass 0 zero).1 rfl⟩,
    plain⟩

theorem written_newline {a : Account} (short : a.Short) : newline ∉ a.written := by
  simp only [Account.written, List.mem_append, List.mem_cons, not_or]
  exact ⟨fun here => (short.name _ here).2.1 rfl, by decide, fun here => (short.pass _ here).2 rfl⟩

/-- A short line is divided, and gives back its account. -/
theorem written_piece {a : Account} (short : a.Short) {tail : List UInt8}
    (ends : tail = [] ∨ tail = [newline]) :
    Divided (a.written ++ tail) ∧ pieceAccount (a.written ++ tail) = a := by
  have plain : (0 : UInt8) ∉ tail := by
    rcases ends with rfl | rfl <;> decide
  have here := written_chars short plain
  have name : ∀ b ∈ a.name, decide (b ≠ space) = true := fun b member =>
    decide_eq_true (short.name b member).2.2
  have split : a.written ++ tail = a.name ++ space :: (a.pass ++ tail) := by
    simp [Account.written]
  have left : (a.written ++ tail).takeWhile (· ≠ space) = a.name := by
    rw [split, List.takeWhile_append_of_pos name]
    simp
  have right : behindSpace (a.written ++ tail) = a.pass ++ tail := by
    rw [behindSpace, here, split, List.dropWhile_append_of_pos name]
    simp
  have trim : trimmed (a.pass ++ tail) = a.pass := by
    rcases ends with rfl | rfl
    · have other : a.pass.getLast? ≠ some newline := fun last =>
        (short.pass _ (List.mem_of_getLast? last)).2 rfl
      simp [trimmed, other]
    · simp [trimmed]
  refine ⟨?_, ?_⟩
  · rw [Divided, here, split]
    simp
  · ext1
    · rw [pieceAccount, here, left]
    · rw [pieceAccount, right, trim]

theorem lines_pieces (lines : Lines accounts file) :
    (∀ piece ∈ pieces file, Divided piece) ∧ (pieces file).map pieceAccount = accounts := by
  induction lines with
  | nil => simp [pieces_nil]
  | last a short =>
    have some : a.written ≠ [] := by simp [Account.written]
    have length := short.length
    have cut := cutLine_last (n := bufferLength - 1) (written_newline short) (by
      simp only [bufferLength]
      omega)
    obtain ⟨divided, account⟩ := written_piece short (.inl rfl)
    rw [List.append_nil] at divided account
    rw [pieces_cons some, cut, pieces_nil]
    simp [divided, account]
  | line a short _ ih =>
    rename_i accounts rest _
    have some : a.written ++ newline :: rest ≠ [] := by simp
    have length := short.length
    have cut := cutLine_line (n := bufferLength - 1) (written_newline short) (by
      simp only [bufferLength]
      omega) rest
    obtain ⟨divided, account⟩ := written_piece short (.inr rfl)
    rw [pieces_cons some, cut, List.forall_mem_cons, List.map_cons, account, ih.2]
    exact ⟨⟨divided, ih.1⟩, rfl⟩

/-- The loop goes through exactly when every piece is divided and there is room and memory,
and then the lines of the file are the table; nothing keeps a file of short lines from that. -/
theorem loads_iff (alloc : Nat → Bool) (line : List UInt8) (heap : Heap) (file : List UInt8)
    (size : line.length = bufferLength) (fresh : ∀ b, heap.next ≤ b → heap.block b = none) :
    ((∃ s, loadCredentials alloc line heap file = .ok s ∧
        ∀ accounts, Lines accounts file → s.Holds accounts) ↔ Loadable alloc file) ∧
      ∀ accounts, Lines accounts file → accounts.length ≤ maxUsers →
        (∀ i < 2 * accounts.length, alloc i = true) → Loadable alloc file := by
  have tabled : Tabled heap .empty [] [] :=
    ⟨rfl, fun j p at' => (by simp at at'), .nil, List.nodup_nil, fresh⟩
  obtain ⟨good, bad⟩ := loadLoop_spec alloc file ⟨line, heap, .empty⟩ size
    (Nat.zero_le _) tabled
  constructor
  · constructor
    · rintro ⟨s, ran, -⟩
      by_contra wrong
      obtain ⟨f, failed⟩ := bad fun loadable => wrong (loadable_iff.mp loadable)
      rw [loadCredentials, failed] at ran
      cases ran
    · intro loadable
      obtain ⟨t, ptrs, ran, held⟩ := good (loadable_iff.mpr loadable)
      refine ⟨t, ran, fun accounts lines => ?_⟩
      rw [List.nil_append, (lines_pieces lines).2] at held
      exact ⟨held.length.trans held.stored.length_eq, ptrs, held⟩
  · intro accounts lines few memory
    obtain ⟨divided, same⟩ := lines_pieces lines
    have count : (pieces file).length = accounts.length := by
      rw [← same, List.length_map]
    exact ⟨divided, count ▸ few, count ▸ memory⟩

end

/-- A file of the line `root a`, without a newline. -/
theorem loads_iff_root :
    let file := [0x72, 0x6F, 0x6F, 0x74, space, 0x61]
    ((∃ s, loadCredentials (fun _ => true) (List.replicate bufferLength 0) .empty file = .ok s ∧
        ∀ accounts, Lines accounts file → s.Holds accounts) ↔ Loadable (fun _ => true) file) ∧
      ∀ accounts, Lines accounts file → accounts.length ≤ maxUsers →
        (∀ i < 2 * accounts.length, (fun _ => true) i = true) → Loadable (fun _ => true) file :=
  loads_iff (fun _ => true) (List.replicate bufferLength 0) .empty _ List.length_replicate
    fun _ _ => rfl

/-- The empty line has no space, and `*pass = 0` goes through NULL. -/
theorem empty_line_unloadable : ¬∀ (line : List UInt8) (heap : Heap) (file : List UInt8),
    line.length = bufferLength → (∀ b, heap.next ≤ b → heap.block b = none) →
      ∃ s, loadCredentials (fun _ => true) line heap file = .ok s ∧
        ∀ accounts, Lines accounts file → s.Holds accounts := by
  intro all
  obtain ⟨s, ran, -⟩ := all (List.replicate bufferLength 0) .empty [newline] List.length_replicate
    fun _ _ => rfl
  have chunk : cutLine (bufferLength - 1) [newline] = ([newline], []) := by decide
  have absent : strchr ([newline] ++ 0 :: (List.replicate bufferLength 0).drop 2) space = .ok none :=
    strchr_absent (by decide) (by decide) (by decide) _
  rw [loadCredentials, loadLoop_cons _ _ (by decide)] at ran
  simp only [chunk, loadLine, List.length_singleton] at ran
  rw [absent] at ran
  cases ran

end SocksProxy
