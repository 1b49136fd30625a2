import Mathlib.Data.List.TakeWhile
import SocksProxy.Lib.Heap

/-!
# C strings in arrays

An array is the list of its bytes. A string starts anywhere in it and ends before
the next NUL; an access past the end of the array is a fault.
-/

namespace SocksProxy.Lib

def load (a : List UInt8) (i : Nat) : Result UInt8 :=
  match a[i]? with
  | none => .error .outOfBounds
  | some b => .ok b

def store (a : List UInt8) (i : Nat) (b : UInt8) : Result (List UInt8) :=
  if i < a.length then .ok (a.set i b) else .error .outOfBounds

/-- The place of the first `c` in the string. -/
def strchr : List UInt8 → UInt8 → Result (Option Nat)
  | [], _ => .error .outOfBounds
  | x :: xs, c =>
    if x = c then .ok (some 0)
    else if x = 0 then .ok none
    else do
      let place ← strchr xs c
      .ok (place.map (· + 1))

def strlen (a : List UInt8) (i : Nat) : Result Nat := do
  let s ← cString (a.drop i)
  .ok s.length

def newline : UInt8 := 0x0A

/-- At most `n` bytes of a file, up to the first newline, and the rest of it. -/
def cutLine : Nat → List UInt8 → List UInt8 × List UInt8
  | 0, file => ([], file)
  | _ + 1, [] => ([], [])
  | n + 1, b :: file =>
    if b = newline then ([b], file)
    else
      let r := cutLine n file
      (b :: r.1, r.2)

/-- NULL at the end of the file; else the array and the rest of the file. -/
def fgets (a : List UInt8) (size : Nat) (file : List UInt8) : Option (List UInt8 × List UInt8) :=
  if file = [] then none
  else
    let r := cutLine (size - 1) file
    some (r.1 ++ 0 :: a.drop (r.1.length + 1), r.2)

/-- NULL if there is no memory. -/
def Heap.mallocOr (h : Heap) (got : Bool) (n : Nat) : Ptr × Heap :=
  if got then
    let r := h.malloc n
    (some r.1, r.2)
  else (none, h)

/-- The string at `i` of the array goes to the block `p`. -/
def Heap.strcpy (h : Heap) (p : Ptr) (a : List UInt8) (i : Nat) : Result Heap := do
  let s ← cString (a.drop i)
  let (b, bytes) ← h.load p
  if s.length < bytes.length then
    let copied := s ++ 0 :: bytes.drop (s.length + 1)
    .ok { h with block := Function.update h.block b (some copied) }
  else .error .outOfBounds

/-- The characters of a literal. -/
def asciiBytes (s : String) : List UInt8 := s.toList.map fun c => c.toNat.toUInt8

/-- `n` bytes are written: the string, cut or filled up with NULs. -/
def strncpy (a s : List UInt8) (n : Nat) : Result (List UInt8) :=
  if n ≤ a.length then .ok ((s ++ List.replicate (n - s.length) 0).take n ++ a.drop n)
  else .error .outOfBounds

/-- At most `n` bytes of `s` go behind the string of the array, and then a NUL. -/
def strncat (a s : List UInt8) (n : Nat) : Result (List UInt8) := do
  let front ← cString a
  let joined := front ++ s.take n
  if joined.length < a.length then .ok (joined ++ 0 :: a.drop (joined.length + 1))
  else .error .outOfBounds

/-- What `%d` makes of a number that is not negative. -/
def decimal (n : Nat) : List UInt8 := (Nat.toDigits 10 n).map fun c => c.toNat.toUInt8

/-- The formatted text `s` goes to `a + i`, cut to `size` bytes with its NUL. -/
def snprintf (a : List UInt8) (i size : Nat) (s : List UInt8) : Result (List UInt8) :=
  if size = 0 then .ok a
  else
    let out := s.take (size - 1) ++ [0]
    if i + out.length ≤ a.length then .ok (a.take i ++ out ++ a.drop (i + out.length))
    else .error .outOfBounds

section
variable {s pre post : List UInt8} {c : UInt8} {n : Nat}

theorem cString_plain (plain : (0 : UInt8) ∉ s) (post : List UInt8) :
    cString (s ++ 0 :: post) = .ok s := by
  induction s with
  | nil => simp [cString]
  | cons x s ih =>
    rw [List.mem_cons, not_or] at plain
    simp [cString, Ne.symm plain.1, ih plain.2]

theorem strlen_plain (plain : (0 : UInt8) ∉ s) (pre post : List UInt8) :
    strlen (pre ++ (s ++ 0 :: post)) pre.length = .ok s.length := by
  rw [strlen, List.drop_left, cString_plain plain]
  rfl

/-- A copy into a block of just its size. -/
theorem strcpy_fits {h : Heap} {b i : Nat} {a bytes : List UInt8} (block : h.block b = some bytes)
    (copied : cString (a.drop i) = .ok s) (size : bytes.length = s.length + 1) :
    h.strcpy (some b) a i = .ok { h with block := Function.update h.block b (some (s ++ [0])) } := by
  have none : bytes.drop (s.length + 1) = [] := List.drop_eq_nil_of_le (Nat.le_of_eq size)
  simp [Heap.strcpy, Heap.load, copied, block, size, none]

theorem strcpy_null (h : Heap) {i : Nat} {a : List UInt8} (copied : cString (a.drop i) = .ok s) :
    h.strcpy none a i = .error .nullPointer := by
  rw [Heap.strcpy, copied]
  rfl

theorem strchr_absent (plain : (0 : UInt8) ∉ s) (absent : c ∉ s) (some : c ≠ 0)
    (post : List UInt8) : strchr (s ++ 0 :: post) c = .ok none := by
  induction s with
  | nil => simp [strchr, some.symm]
  | cons x s ih =>
    rw [List.mem_cons, not_or] at plain absent
    simp [strchr, Ne.symm plain.1, Ne.symm absent.1, ih plain.2 absent.2]

theorem strchr_found (plain : (0 : UInt8) ∉ s) (absent : c ∉ s) (post : List UInt8) :
    strchr (s ++ c :: post) c = .ok (some s.length) := by
  induction s with
  | nil => simp [strchr]
  | cons x s ih =>
    rw [List.mem_cons, not_or] at plain absent
    simp [strchr, Ne.symm plain.1, Ne.symm absent.1, ih plain.2 absent.2]

theorem load_middle (pre post : List UInt8) (c : UInt8) :
    load (pre ++ c :: post) pre.length = .ok c := by
  simp [load]

theorem store_middle (pre post : List UInt8) (c b : UInt8) :
    store (pre ++ c :: post) pre.length b = .ok (pre ++ b :: post) := by
  simp [store]

theorem cutLine_append (n : Nat) (file : List UInt8) :
    (cutLine n file).1 ++ (cutLine n file).2 = file := by
  induction file generalizing n with
  | nil => cases n <;> rfl
  | cons b file ih =>
    cases n with
    | zero => rfl
    | succ n =>
      unfold cutLine
      split
      · rfl
      · simp [ih]

theorem cutLine_length (n : Nat) (file : List UInt8) : (cutLine n file).1.length ≤ n := by
  induction file generalizing n with
  | nil => cases n <;> simp [cutLine]
  | cons b file ih =>
    cases n with
    | zero => simp [cutLine]
    | succ n =>
      unfold cutLine
      split
      · simp
      · simp [ih]

theorem cutLine_rest (n : Nat) {file : List UInt8} (more : file ≠ []) :
    (cutLine (n + 1) file).2.length < file.length := by
  cases file with
  | nil => exact absurd rfl more
  | cons b file =>
    unfold cutLine
    split
    · simp
    · have joined := congrArg List.length (cutLine_append n file)
      rw [List.length_append] at joined
      simp only [List.length_cons]
      omega

/-- A line that fits is cut whole. -/
theorem cutLine_line (plain : newline ∉ s) (fits : s.length < n) (file : List UInt8) :
    cutLine n (s ++ newline :: file) = (s ++ [newline], file) := by
  induction s generalizing n with
  | nil =>
    obtain ⟨m, rfl⟩ := Nat.exists_eq_succ_of_ne_zero (Nat.ne_of_gt fits)
    simp [cutLine]
  | cons x s ih =>
    obtain ⟨m, rfl⟩ := Nat.exists_eq_succ_of_ne_zero (Nat.ne_of_gt (Nat.zero_lt_of_lt fits))
    rw [List.mem_cons, not_or] at plain
    rw [List.length_cons] at fits
    simp [cutLine, Ne.symm plain.1, ih (n := m) plain.2 (by omega)]

/-- So is the last line, without its newline. -/
theorem cutLine_last (plain : newline ∉ s) (fits : s.length ≤ n) : cutLine n s = (s, []) := by
  induction s generalizing n with
  | nil => cases n <;> rfl
  | cons x s ih =>
    rw [List.length_cons] at fits
    obtain ⟨m, rfl⟩ := Nat.exists_eq_succ_of_ne_zero (Nat.ne_of_gt (Nat.zero_lt_of_lt fits))
    rw [List.mem_cons, not_or] at plain
    simp [cutLine, Ne.symm plain.1, ih (n := m) plain.2 (by omega)]

/-- A NUL at the end of an array leaves the string before it. -/
theorem store_last (fits : s.length < n) (size : (s ++ 0 :: post).length = n) :
    ∃ post', store (s ++ 0 :: post) (n - 1) 0 = .ok (s ++ 0 :: post') ∧
      (s ++ 0 :: post').length = n := by
  have inside : n - 1 < (s ++ 0 :: post).length := by omega
  unfold store
  rw [if_pos inside]
  by_cases first : n - 1 = s.length
  · exact ⟨post, by simp [first], size⟩
  · have behind : ¬ n - 1 < s.length := by omega
    obtain ⟨k, place⟩ : ∃ k, n - 1 - s.length = k + 1 := ⟨n - 1 - s.length - 1, by omega⟩
    refine ⟨post.set k 0, ?_, by simpa using size⟩
    rw [List.set_append, if_neg behind, place, List.set_cons_succ]

/-- A NUL over the last byte of an array. -/
theorem store_end (size : s.length = n + 1) : store s n 0 = .ok (s.take n ++ [0]) := by
  have behind : s.drop (n + 1) = [] := List.drop_eq_nil_of_le (Nat.le_of_eq size)
  unfold store
  rw [if_pos (by omega), List.set_eq_take_append_cons_drop, if_pos (by omega), behind]

theorem strncpy_fits (a : List UInt8) (fits : s.length < n) (size : a.length = n) :
    ∃ post, strncpy a s n = .ok (s ++ 0 :: post) ∧ (s ++ 0 :: post).length = n := by
  refine ⟨List.replicate (n - s.length - 1) 0, ?_, by simp; omega⟩
  obtain ⟨k, zeros⟩ : ∃ k, n - s.length = k + 1 := ⟨n - s.length - 1, by omega⟩
  have whole : (s ++ List.replicate (n - s.length) 0).length = n := by simp; omega
  unfold strncpy
  rw [if_pos (Nat.le_of_eq size.symm), List.take_of_length_le (Nat.le_of_eq whole),
    List.drop_eq_nil_of_le (Nat.le_of_eq size), List.append_nil, zeros, List.replicate_succ]
  rfl

theorem strncpy_cut (a : List UInt8) (long : n ≤ s.length) (size : a.length = n) :
    strncpy a s n = .ok (s.take n) := by
  unfold strncpy
  rw [if_pos (Nat.le_of_eq size.symm), List.take_append_of_le_length long,
    List.drop_eq_nil_of_le (Nat.le_of_eq size), List.append_nil]

theorem strncat_fits {t : List UInt8} (plain : (0 : UInt8) ∉ s) (short : t.length ≤ n)
    (room : s.length + t.length < (s ++ 0 :: post).length) :
    ∃ post', strncat (s ++ 0 :: post) t n = .ok (s ++ t ++ 0 :: post') ∧
      (s ++ t ++ 0 :: post').length = (s ++ 0 :: post).length := by
  refine ⟨(s ++ 0 :: post).drop ((s ++ t).length + 1), ?_, ?_⟩
  · have joined : (s ++ t).length < (s ++ 0 :: post).length := by rwa [List.length_append]
    rw [strncat, cString_plain plain, ok_bind, List.take_of_length_le short]
    exact if_pos joined
  · simp only [List.length_append, List.length_cons, List.length_drop] at room ⊢
    omega

/-- There is no room for the NUL. -/
theorem strncat_full {t : List UInt8} (plain : (0 : UInt8) ∉ s) (short : t.length ≤ n)
    (full : (s ++ 0 :: post).length ≤ s.length + t.length) :
    strncat (s ++ 0 :: post) t n = .error .outOfBounds := by
  rw [strncat, cString_plain plain, ok_bind, List.take_of_length_le short]
  simp only [List.length_append] at full ⊢
  rw [if_neg (by omega)]

/-- A string without its NUL is read past its array. -/
theorem cString_open (plain : (0 : UInt8) ∉ s) : cString s = .error .outOfBounds := by
  induction s with
  | nil => rfl
  | cons x s ih =>
    rw [List.mem_cons, not_or] at plain
    simp [cString, Ne.symm plain.1, ih plain.2]

/-- Text behind the string of an array is cut to its end. -/
theorem snprintf_end {t : List UInt8} (size : (s ++ 0 :: post).length = n) :
    ∃ post', snprintf (s ++ 0 :: post) s.length (n - s.length) t =
        .ok ((s ++ t).take (n - 1) ++ 0 :: post') ∧
      ((s ++ t).take (n - 1) ++ 0 :: post').length = n := by
  have sizes : s.length + post.length + 1 = n := by rw [← size]; simp; omega
  have room : ¬ n - s.length = 0 := by omega
  have cut : (s ++ t).take (n - 1) = s ++ t.take (n - s.length - 1) := by
    rw [List.take_append, List.take_of_length_le (by omega)]
    congr 2
    omega
  have most := List.length_take_le (n - s.length - 1) t
  rw [cut]
  unfold snprintf
  rw [if_neg room]
  generalize t.take (n - s.length - 1) = shown at most
  have fits : s.length + (shown ++ [0]).length ≤ (s ++ 0 :: post).length := by
    simp only [List.length_append, List.length_cons, List.length_nil]
    omega
  refine ⟨(s ++ 0 :: post).drop (s.length + (shown ++ [0]).length), ?_, ?_⟩
  · simp only [if_pos fits, List.take_left]
    simp
  · simp only [List.length_append, List.length_cons, List.length_drop, List.length_nil] at fits ⊢
    omega

theorem decimal_plain (n : Nat) : (0 : UInt8) ∉ decimal n := by
  intro zero
  obtain ⟨c, member, zero⟩ := List.mem_map.mp zero
  have digit : c.isDigit := Nat.isDigit_of_mem_toDigits (by decide) (by decide) member
  have low : 48 ≤ c.toNat ∧ c.toNat ≤ 57 := by
    simpa [Char.isDigit, UInt32.le_iff_toNat_le] using digit
  have same := congrArg UInt8.toNat zero
  simp at same
  omega

end

end SocksProxy.Lib
