import SocksProxy.RequestParser
import SocksProxy.Lib.CString

/-!
# netutils.c: an address for people to read

`inet_ntop` is a parameter: with room for its text and a NUL it writes them, and
otherwise it returns NULL. The buffer has just `buffsize` bytes, so an access past
them is a fault.
-/

namespace SocksProxy

open Lib

/-- The port is kept as its two bytes in memory, in network order. -/
structure SockAddr where
  family : UInt16
  port : UInt8 × UInt8
  addr : List UInt8
  deriving DecidableEq, Repr

def ntohs (port : UInt8 × UInt8) : Nat := port.1.toNat * 256 + port.2.toNat

/-- From the family, the address, the destination and its size: whether the result is
not NULL, and the destination after the call. -/
abbrev InetNtop := UInt16 → List UInt8 → List UInt8 → Nat → Bool × List UInt8

def SockAddr.handled (a : SockAddr) : Bool :=
  a.family = afInet.toUInt16 || a.family = afInet6.toUInt16

/-- What stands in the buffer before the colon is added. -/
def formatName (inetNtop : InetNtop) (buff : List UInt8) (buffsize : Nat) (a : SockAddr) :
    Result (List UInt8) :=
  if a.handled then
    let r := inetNtop a.family a.addr buff buffsize
    if r.1 then .ok r.2
    else Lib.strncpy r.2 (asciiBytes "unknown ip") buffsize >>= fun buff => store buff (buffsize - 1) 0
  else Lib.strncpy buff (asciiBytes "unknown") buffsize

/-- What comes behind the colon, at `buff + len`. -/
def formatPort (buff : List UInt8) (buffsize len : Nat) (a : SockAddr) : Result (List UInt8) :=
  if a.handled then snprintf buff len (buffsize - len) (decimal (ntohs a.port)) else .ok buff

def sockaddrToHuman (inetNtop : InetNtop) (buff : List UInt8) (buffsize : Nat)
    (addr : Option SockAddr) : Result (List UInt8) :=
  match addr with
  | none => Lib.strncpy buff (asciiBytes "null") buffsize
  | some a => do
    let buff ← formatName inetNtop buff buffsize a
    let buff ← strncat buff (asciiBytes ":") buffsize
    let buff ← store buff (buffsize - 1) 0
    let len ← strlen buff 0
    let buff ← formatPort buff buffsize len a
    store buff (buffsize - 1) 0

/-- What the C library says of `inet_ntop`, for the texts of the addresses. -/
structure InetNtop.Documented (inetNtop : InetNtop) (text : UInt16 → List UInt8 → List UInt8) :
    Prop where
  plain : ∀ family addr, (0 : UInt8) ∉ text family addr
  fits : ∀ family addr buff, (text family addr).length < buff.length → ∃ rest,
    inetNtop family addr buff buff.length = (true, text family addr ++ 0 :: rest) ∧
      (text family addr ++ 0 :: rest).length = buff.length
  short : ∀ family addr buff, buff.length ≤ (text family addr).length → ∃ rest,
    inetNtop family addr buff buff.length = (false, rest) ∧ rest.length = buff.length

/-! ## What the buffer should show -/

/-- The part before the colon. -/
def SockAddr.name (a : SockAddr) (text : UInt16 → List UInt8 → List UInt8) (buffsize : Nat) :
    List UInt8 :=
  if a.handled then
    if (text a.family a.addr).length < buffsize then text a.family a.addr
    else asciiBytes "unknown ip"
  else asciiBytes "unknown"

/-- The part behind it. -/
def SockAddr.portText (a : SockAddr) : List UInt8 :=
  if a.handled then decimal (ntohs a.port) else []

def SockAddr.human (a : SockAddr) (text : UInt16 → List UInt8 → List UInt8) (buffsize : Nat) :
    List UInt8 :=
  a.name text buffsize ++ asciiBytes ":" ++ a.portText

/-- The call stays within its buffer and leaves there as much of the text as fits. -/
def SockAddr.Shown (a : SockAddr) (inetNtop : InetNtop) (text : UInt16 → List UInt8 → List UInt8)
    (buff : List UInt8) (buffsize : Nat) : Prop :=
  ∃ out, sockaddrToHuman inetNtop buff buffsize (some a) = .ok out ∧ out.length = buffsize ∧
    cString out = .ok ((a.human text buffsize).take (buffsize - 1))

section
variable {inetNtop : InetNtop} {text : UInt16 → List UInt8 → List UInt8} {buff : List UInt8}
  {n : Nat} {a : SockAddr}

theorem name_plain (documented : inetNtop.Documented text) (a : SockAddr) (n : Nat) :
    (0 : UInt8) ∉ a.name text n := by
  unfold SockAddr.name
  split
  · split
    · exact documented.plain _ _
    · decide
  · decide

theorem human_plain (documented : inetNtop.Documented text) (a : SockAddr) (n : Nat) :
    (0 : UInt8) ∉ a.human text n := by
  have colon : (0 : UInt8) ∉ asciiBytes ":" := by decide
  have name := name_plain documented a n
  have port : (0 : UInt8) ∉ a.portText := by
    unfold SockAddr.portText
    split
    · exact decimal_plain _
    · simp
  simp [SockAddr.human, name, colon, port]

/-- With room for the name, it stands in the buffer. -/
theorem formatName_fits (documented : inetNtop.Documented text) (size : buff.length = n)
    (room : (a.name text n).length < n) :
    ∃ rest, formatName inetNtop buff n a = .ok (a.name text n ++ 0 :: rest) ∧
      (a.name text n ++ 0 :: rest).length = n := by
  unfold formatName
  unfold SockAddr.name at room ⊢
  by_cases handled : a.handled = true
  · simp only [if_pos handled] at room ⊢
    by_cases short : (text a.family a.addr).length < n
    · rw [if_pos short]
      obtain ⟨rest, wrote, whole⟩ := documented.fits a.family a.addr buff (size ▸ short)
      rw [size] at wrote whole
      exact ⟨rest, by rw [wrote]; rfl, whole⟩
    · rw [if_neg short] at room ⊢
      obtain ⟨left, wrote, whole⟩ :=
        documented.short a.family a.addr buff (size ▸ Nat.not_lt.mp short)
      rw [size] at wrote whole
      obtain ⟨rest, copied, length⟩ := strncpy_fits left room whole
      obtain ⟨rest', stored, length'⟩ := store_last room length
      exact ⟨rest', by rw [wrote]; simp [copied, stored], length'⟩
  · simp only [if_neg handled] at room ⊢
    exact strncpy_fits buff room size

theorem formatPort_end {s post : List UInt8} (a : SockAddr) (size : (s ++ 0 :: post).length = n) :
    ∃ post', formatPort (s ++ 0 :: post) n s.length a =
        .ok ((s ++ a.portText).take (n - 1) ++ 0 :: post') ∧
      ((s ++ a.portText).take (n - 1) ++ 0 :: post').length = n := by
  unfold formatPort SockAddr.portText
  split
  · exact snprintf_end size
  · have whole : s.length ≤ n - 1 := by
      rw [← size, List.length_append, List.length_cons]
      omega
    rw [List.append_nil, List.take_of_length_le whole]
    exact ⟨post, rfl, size⟩

/-- Behind a name that leaves room for the colon and the NUL. -/
theorem shown_of_room (documented : inetNtop.Documented text) (size : buff.length = n)
    (room : (a.name text n).length + 2 ≤ n) : a.Shown inetNtop text buff n := by
  have plain := human_plain documented a n
  have colon : (asciiBytes ":").length = 1 := rfl
  obtain ⟨r₁, named, length₁⟩ := formatName_fits (a := a) documented size (by omega)
  obtain ⟨r₂, joined, length₂⟩ := strncat_fits (t := asciiBytes ":") (name_plain documented a n)
    (show 1 ≤ n by omega) (by rw [length₁, colon]; omega)
  unfold SockAddr.Shown SockAddr.human at *
  have front_plain : (0 : UInt8) ∉ a.name text n ++ asciiBytes ":" := fun zero =>
    plain (List.mem_append_left _ zero)
  have front : (a.name text n ++ asciiBytes ":").length < n := by
    rw [List.length_append, colon]
    omega
  generalize a.name text n ++ asciiBytes ":" = shown at *
  obtain ⟨r₃, ended, length₃⟩ := store_last front (length₂.trans length₁)
  have measured : strlen (shown ++ 0 :: r₃) 0 = .ok shown.length :=
    strlen_plain front_plain [] r₃
  -- the port, where there is one, is cut at the end of the buffer
  obtain ⟨r₄, printed, length₄⟩ := formatPort_end a length₃
  have cut : ((shown ++ a.portText).take (n - 1)).length < n := by
    have := List.length_take_le (n - 1) (shown ++ a.portText)
    omega
  obtain ⟨r₅, last, length₅⟩ := store_last cut length₄
  refine ⟨_, ?_, length₅, cString_plain (fun zero => plain (List.mem_of_mem_take zero)) r₅⟩
  simp only [sockaddrToHuman, named, ok_bind, joined, ended, measured, printed, last]

/-- A name that is too long for the buffer is cut, and there is no room behind it. -/
theorem formatName_cut (documented : inetNtop.Documented text) (size : buff.length = n)
    (long : n ≤ (a.name text n).length) :
    (formatName inetNtop buff n a >>= fun buff => strncat buff (asciiBytes ":") n) =
      .error .outOfBounds := by
  unfold formatName
  unfold SockAddr.name at long
  by_cases handled : a.handled = true
  · simp only [if_pos handled] at long ⊢
    by_cases short : (text a.family a.addr).length < n
    · rw [if_pos short] at long
      omega
    · rw [if_neg short] at long
      obtain ⟨left, wrote, whole⟩ :=
        documented.short a.family a.addr buff (size ▸ Nat.not_lt.mp short)
      rw [size] at wrote whole
      simp only [wrote, Bool.false_eq_true, if_false, strncpy_cut left long whole, ok_bind]
      cases n with
      | zero => rfl
      | succ n =>
        have plain : (0 : UInt8) ∉ (asciiBytes "unknown ip").take n :=
          fun zero => absurd (List.mem_of_mem_take zero) (by decide)
        have cut : ((asciiBytes "unknown ip").take (n + 1)).length = n + 1 := by
          rw [List.length_take, Nat.min_eq_left long]
        rw [Nat.add_sub_cancel, store_end cut, ok_bind, List.take_take, Nat.min_eq_left (Nat.le_succ n)]
        refine strncat_full plain (show 1 ≤ n + 1 by omega) ?_
        rw [List.length_append, List.length_singleton]
        exact Nat.le_refl _
  · simp only [if_neg handled] at long ⊢
    rw [strncpy_cut buff long size, ok_bind]
    have plain : (0 : UInt8) ∉ (asciiBytes "unknown").take n :=
      fun zero => absurd (List.mem_of_mem_take zero) (by decide)
    rw [strncat, cString_open plain]
    rfl

/-- Without room for the colon and the NUL they are written past the buffer, or no end of
the name is found in it. -/
theorem faults_without_room (documented : inetNtop.Documented text) (size : buff.length = n)
    (full : n < (a.name text n).length + 2) :
    sockaddrToHuman inetNtop buff n (some a) = .error .outOfBounds := by
  have joined : (formatName inetNtop buff n a >>= fun buff => strncat buff (asciiBytes ":") n) =
      .error .outOfBounds := by
    by_cases long : n ≤ (a.name text n).length
    · exact formatName_cut documented size long
    · obtain ⟨rest, named, length⟩ := formatName_fits documented size (Nat.lt_of_not_le long)
      rw [named, ok_bind]
      refine strncat_full (name_plain documented a n) (show 1 ≤ n by omega) ?_
      rw [length]
      exact Nat.le_of_lt_succ full
  cases named : formatName inetNtop buff n a with
  | error e =>
    rw [named, error_bind] at joined
    simp only [sockaddrToHuman, named, error_bind]
    exact Except.error.inj joined ▸ rfl
  | ok front =>
    rw [named, ok_bind] at joined
    simp only [sockaddrToHuman, named, ok_bind, joined, error_bind]

/-- The call meets its purpose exactly when there is room for the part before the colon,
the colon and the NUL. -/
theorem sockaddrToHuman_iff (documented : inetNtop.Documented text) (size : buff.length = n)
    (a : SockAddr) : a.Shown inetNtop text buff n ↔ (a.name text n).length + 2 ≤ n := by
  constructor
  · rintro ⟨out, ran, _⟩
    by_contra full
    rw [faults_without_room documented size (by omega)] at ran
    cases ran
  · exact shown_of_room documented size

/-- An `inet_ntop` that copies a text, or leaves the destination alone. -/
def writeText (text : UInt16 → List UInt8 → List UInt8) : InetNtop := fun family addr buff size =>
  if (text family addr).length < size then
    (true, text family addr ++ 0 :: buff.drop ((text family addr).length + 1))
  else (false, buff)

theorem writeText_documented (plain : ∀ family addr, (0 : UInt8) ∉ text family addr) :
    (writeText text).Documented text where
  plain := plain
  fits family addr buff room := by
    refine ⟨_, if_pos room, ?_⟩
    simp only [List.length_append, List.length_cons, List.length_drop]
    omega
  short _ _ buff long := ⟨buff, if_neg (Nat.not_lt.mpr long), rfl⟩

/-- The text of an IPv4 address. -/
def dotted (_ : UInt16) : List UInt8 → List UInt8
  | [] => []
  | b :: addr => decimal b.toNat ++ addr.flatMap fun b => asciiBytes "." ++ decimal b.toNat

theorem dotted_plain (family : UInt16) (addr : List UInt8) : (0 : UInt8) ∉ dotted family addr := by
  have dot : (0 : UInt8) ∉ asciiBytes "." := by decide
  cases addr with
  | nil => simp [dotted]
  | cons b addr => simp [dotted, decimal_plain, dot]

/-- The address of the tests, 1.2.3.4 with port 9090. -/
def testAddr : SockAddr := ⟨2, (0x23, 0x82), [1, 2, 3, 4]⟩

/-- Twelve bytes show all of it but the last digit of the port. -/
theorem sockaddrToHuman_iff_test :
    testAddr.Shown (writeText dotted) dotted (List.replicate 12 0) 12 ∧
      (testAddr.human dotted 12).take 11 = asciiBytes "1.2.3.4:909" :=
  ⟨(sockaddrToHuman_iff (writeText_documented dotted_plain) rfl testAddr).mpr (by decide), by decide⟩

/-- In eight bytes the text of the address fits, and a NUL is written behind them. -/
theorem sockaddr_overrun :
    (testAddr.human dotted 8).take 7 = asciiBytes "1.2.3.4" ∧
      ¬ testAddr.Shown (writeText dotted) dotted (List.replicate 8 0) 8 := by
  refine ⟨by decide, ?_⟩
  rintro ⟨out, ran, _⟩
  have fault : sockaddrToHuman (writeText dotted) (List.replicate 8 0) 8 (some testAddr) =
      .error .outOfBounds := by decide
  rw [fault] at ran
  cases ran

end

end SocksProxy
