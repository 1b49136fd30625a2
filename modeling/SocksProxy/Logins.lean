import SocksProxy.Dissector
import SocksProxy.Lib.Scan

/-!
# The login sequence of POP3

`logins` is the documented scan: "user ", a name up to LF or CRLF, "+OK\r\npass " at
once, a password up to LF or CRLF, and over again; a sequence that breaks off is
searched for anew from the byte that broke it off. `Scanner` is the machine of the
dissector without its heap. It tests for the end of a field before the limit, as
the scan does, or with `early` after it, as the handlers do.
-/

namespace SocksProxy

open Lib

def maxField : Nat := 255

def cr : UInt8 := 0x0D

def lf : UInt8 := 0x0A

/-- The end of a field behind its CR. -/
def afterCr : List UInt8 → Attempt UInt8 (List UInt8)
  | [] => .pending
  | b :: s => if b = lf then .found [] s else .broken (b :: s)

/-- A field with room for `n` more bytes. -/
def popField (n : Nat) : List UInt8 → Attempt UInt8 (List UInt8)
  | [] => .pending
  | b :: s =>
    if b = cr then afterCr s
    else if b = lf then .found [] s
    else if b ≤ 127 ∧ 0 < n then
      (popField (n - 1) s).bind fun bytes rest => .found (b :: bytes) rest
    else .broken (b :: s)

/-- What follows the `u` of a login. -/
def login (s : List UInt8) : Attempt UInt8 (List UInt8 × List UInt8) :=
  (Attempt.word [0x73, 0x65, 0x72, 0x20] s).bind fun _ s =>
    (popField maxField s).bind fun name s =>
      (Attempt.word [0x2B, 0x4F, 0x4B, 0x0D, 0x0A, 0x70, 0x61, 0x73, 0x73, 0x20] s).bind fun _ s =>
        (popField maxField s).bind fun password s => .found (name, password) s

theorem afterCr_within (s : List UInt8) : (afterCr s).Within s.length := by
  cases s with
  | nil => trivial
  | cons b s =>
    rw [afterCr]
    split
    · exact Nat.le_succ _
    · exact Nat.le_refl _

theorem popField_within (n : Nat) (s : List UInt8) : (popField n s).Within s.length := by
  induction s generalizing n with
  | nil => trivial
  | cons b s ih =>
    rw [popField]
    split
    · exact (afterCr_within s).mono (Nat.le_succ _)
    split
    · exact Nat.le_succ _
    split
    · apply ((ih (n - 1)).mono (Nat.le_succ _)).bind
      exact fun _ _ => Nat.le_refl _
    · exact Nat.le_refl _

theorem login_within (s : List UInt8) : (login s).Within s.length := by
  apply (Attempt.word_within _ s).bind
  intro _ s
  apply (popField_within maxField s).bind
  intro name s
  apply (Attempt.word_within _ s).bind
  intro _ s
  apply (popField_within maxField s).bind
  exact fun _ _ => Nat.le_refl _

/-- The names and passwords in a stream. -/
def logins : List UInt8 → List (List UInt8 × List UInt8) := scan 0x75 login login_within

/-! ## The machine -/

inductive Scanner
  | userWord (k : Nat)
  | username (bytes : List UInt8) (last : Bool)
  | passWord (name : List UInt8) (k : Nat)
  | password (name bytes : List UInt8) (last : Bool)
  deriving DecidableEq, Repr

/-- What a byte does to a field. -/
inductive FieldStep
  | reads (bytes : List UInt8) (last : Bool)
  | ends
  | breaks
  deriving DecidableEq, Repr

def fieldStep (early : Bool) (bytes : List UInt8) (last : Bool) (b : UInt8) : FieldStep :=
  if early = true ∧ maxField ≤ bytes.length then .breaks
  else if last = true ∧ b ≠ lf then .breaks
  else if b = cr then .reads bytes true
  else if b = lf then .ends
  else if b ≤ 127 ∧ bytes.length < maxField then .reads (bytes ++ [b]) last
  else .breaks

section
variable (early : Bool) {last : Bool} {bytes : List UInt8} {b : UInt8}

theorem lf_ne_cr : lf ≠ cr := by decide

/-- The scan that is not early asks for no room. -/
theorem late_room {p : Prop} (early : false = true) : p := absurd early Bool.false_ne_true

theorem fieldStep_lf (room : early = true → bytes.length < maxField) :
    fieldStep early bytes last lf = .ends := by
  have open' : ¬ (early = true ∧ maxField ≤ bytes.length) := fun h => Nat.not_le.mpr (room h.1) h.2
  rw [fieldStep, if_neg open', if_neg (fun h => h.2 rfl), if_neg lf_ne_cr, if_pos rfl]

theorem fieldStep_cr (room : early = true → bytes.length < maxField) :
    fieldStep early bytes false cr = .reads bytes true := by
  have open' : ¬ (early = true ∧ maxField ≤ bytes.length) := fun h => Nat.not_le.mpr (room h.1) h.2
  rw [fieldStep, if_neg open', if_neg (fun h => nomatch h.1), if_pos rfl]

theorem fieldStep_pending (notLf : b ≠ lf) : fieldStep early bytes true b = .breaks := by
  rw [fieldStep, if_pos (c := true = true ∧ b ≠ lf) ⟨rfl, notLf⟩, ite_self]

theorem fieldStep_byte (low : b ≤ 127) (notCr : b ≠ cr) (notLf : b ≠ lf)
    (room : bytes.length < maxField) :
    fieldStep early bytes false b = .reads (bytes ++ [b]) false := by
  have open' : ¬ (early = true ∧ maxField ≤ bytes.length) := fun h => Nat.not_le.mpr room h.2
  rw [fieldStep, if_neg open', if_neg (fun h => nomatch h.1), if_neg notCr, if_neg notLf,
    if_pos ⟨low, room⟩]

theorem fieldStep_other (notCr : b ≠ cr) (notLf : b ≠ lf)
    (other : ¬ (b ≤ 127 ∧ bytes.length < maxField)) : fieldStep early bytes last b = .breaks := by
  rw [fieldStep, if_neg notCr, if_neg notLf, if_neg other, ite_self, ite_self]

end

namespace Scanner

def idle : Scanner := userWord 0

/-- The byte as the first of a new sequence. -/
def restart (b : UInt8) : Scanner := if b = 0x75 then userWord 1 else idle

/-- After a step in the name. -/
def nameStep (b : UInt8) (bytes : List UInt8) : FieldStep → Scanner × List (List UInt8 × List UInt8)
  | .reads bytes last => (username bytes last, [])
  | .ends => (passWord bytes 0, [])
  | .breaks => (restart b, [])

/-- After a step in the password. -/
def passStep (b : UInt8) (name bytes : List UInt8) :
    FieldStep → Scanner × List (List UInt8 × List UInt8)
  | .reads bytes last => (password name bytes last, [])
  | .ends => (idle, [(name, bytes)])
  | .breaks => (restart b, [])

def feed (early : Bool) : Scanner → UInt8 → Scanner × List (List UInt8 × List UInt8)
  | userWord k, b =>
    if userReservedPop3Word[k]? = some b then
      (if k + 1 = userL then username [] false else userWord (k + 1), [])
    else (restart b, [])
  | username bytes last, b => nameStep b bytes (fieldStep early bytes last b)
  | passWord name k, b =>
    if passReservedPop3Word[k]? = some b then
      (if k + 1 = passL then password name [] false else passWord name (k + 1), [])
    else (restart b, [])
  | password name bytes last, b => passStep b name bytes (fieldStep early bytes last b)

/-! ## The machine finds what the scan finds -/

theorem idle_feed (early : Bool) (b : UInt8) : idle.feed early b = (restart b, []) := by
  rw [idle, feed]
  split
  · rename_i first
    have same : 0x75 = b := Option.some.inj first
    rw [if_neg (by decide), restart, if_pos same.symm]
  · rfl

theorem emit_restart (early : Bool) (b : UInt8) (s : List UInt8) :
    emit (feed early) (restart b) s = emit (feed early) idle (b :: s) := by
  rw [emit, idle_feed, List.nil_append]

/-- A word from its symbol `k` on. -/
theorem word_agrees {w : List UInt8} {state : Nat → Scanner} {ended : Scanner}
    (step : ∀ k b, (state k).feed false b =
      if w[k]? = some b then (if k + 1 = w.length then ended else state (k + 1), [])
      else (restart b, []))
    {k : Nat} (within : k < w.length) (s : List UInt8) :
    Agrees (feed false) idle (fun _ rest => emit (feed false) ended rest)
      (emit (feed false) (state k) s) (Attempt.word (w.drop k) s) := by
  induction s generalizing k with
  | nil =>
    rw [List.drop_eq_getElem_cons within]
    rfl
  | cons b s ih =>
    rw [List.drop_eq_getElem_cons within, Attempt.word, emit, step, List.getElem?_eq_getElem within]
    by_cases same : w[k] = b
    · rw [if_pos same, if_pos (congrArg some same), List.nil_append]
      by_cases last : k + 1 = w.length
      · rw [if_pos last, last, List.drop_length]
        rfl
      · rw [if_neg last]
        exact ih (by omega)
    · rw [if_neg same, if_neg (fun h => same (Option.some.inj h)), List.nil_append]
      exact emit_restart false b s

section
variable {state : List UInt8 → Bool → Scanner}
  {next : List UInt8 → Scanner × List (List UInt8 × List UInt8)}

/-- The byte after a CR. -/
theorem afterCr_agrees
    (step : ∀ bytes last b, (state bytes last).feed false b =
      match fieldStep false bytes last b with
      | .reads bytes last => (state bytes last, [])
      | .ends => next bytes
      | .breaks => (restart b, []))
    (acc s : List UInt8) :
    Agrees (feed false) idle
      (fun bytes rest => (next (acc ++ bytes)).2 ++ emit (feed false) (next (acc ++ bytes)).1 rest)
      (emit (feed false) (state acc true) s) (afterCr s) := by
  cases s with
  | nil => rfl
  | cons b s =>
    rw [afterCr, emit, step]
    by_cases isLf : b = lf
    · rw [if_pos isLf, isLf, fieldStep_lf false late_room]
      change _ = (next (acc ++ [])).2 ++ _
      rw [List.append_nil]
    · rw [if_neg isLf, fieldStep_pending false isLf, List.nil_append]
      exact emit_restart false b s

/-- A field behind the bytes `acc`. -/
theorem field_agrees (state : List UInt8 → Bool → Scanner)
    (next : List UInt8 → Scanner × List (List UInt8 × List UInt8))
    (step : ∀ bytes last b, (state bytes last).feed false b =
      match fieldStep false bytes last b with
      | .reads bytes last => (state bytes last, [])
      | .ends => next bytes
      | .breaks => (restart b, []))
    (acc s : List UInt8) :
    Agrees (feed false) idle
      (fun bytes rest => (next (acc ++ bytes)).2 ++ emit (feed false) (next (acc ++ bytes)).1 rest)
      (emit (feed false) (state acc false) s) (popField (maxField - acc.length) s) := by
  induction s generalizing acc with
  | nil => rfl
  | cons b s ih =>
    rw [popField, emit, step]
    by_cases isCr : b = cr
    · rw [if_pos isCr, isCr, fieldStep_cr false late_room, List.nil_append]
      exact afterCr_agrees step acc s
    by_cases isLf : b = lf
    · rw [if_neg isCr, if_pos isLf, isLf, fieldStep_lf false late_room]
      change _ = (next (acc ++ [])).2 ++ _
      rw [List.append_nil]
    by_cases more : b ≤ 127 ∧ acc.length < maxField
    · have onward := ih (acc ++ [b])
      rw [List.length_append, List.length_singleton, Nat.sub_succ'] at onward
      rw [if_neg isCr, if_neg isLf, if_pos ⟨more.1, by omega⟩,
        fieldStep_byte false more.1 isCr isLf more.2, List.nil_append]
      apply onward.bind
      intro bytes rest
      change _ = (next (acc ++ b :: bytes)).2 ++ _
      rw [List.append_assoc, List.singleton_append]
    · rw [if_neg isCr, if_neg isLf, if_neg (fun h => more ⟨h.1, by omega⟩),
        fieldStep_other false isCr isLf more, List.nil_append]
      exact emit_restart false b s

end

theorem login_agrees (s : List UInt8) :
    Agrees (feed false) idle (fun pair rest => pair :: emit (feed false) idle rest)
      (emit (feed false) (userWord 1) s) (login s) := by
  have userWordFeed : ∀ k b, (userWord k).feed false b =
      if userReservedPop3Word[k]? = some b then
        (if k + 1 = userReservedPop3Word.length then username [] false else userWord (k + 1), [])
      else (restart b, []) := fun _ _ => rfl
  apply (word_agrees userWordFeed (by decide) s).bind
  intro _ s
  apply (field_agrees username (fun name => (passWord name 0, []))
    (fun _ _ _ => rfl) [] s).bind
  intro name s
  have passWordFeed : ∀ k b, (passWord name k).feed false b =
      if passReservedPop3Word[k]? = some b then
        (if k + 1 = passReservedPop3Word.length then password name [] false
          else passWord name (k + 1), [])
      else (restart b, []) := fun _ _ => rfl
  apply (word_agrees passWordFeed (by decide) s).bind
  intro _ s
  apply (field_agrees (password name) (fun bytes => (idle, [(name, bytes)]))
    (fun _ _ _ => rfl) [] s).bind
  intro bytes rest
  rfl

/-- Where the end of a field is tested for before the limit, the machine is the scan. -/
theorem emit_logins (s : List UInt8) : emit (feed false) idle s = logins s := by
  apply emit_scan (userWord 1)
  · rw [idle_feed, restart, if_pos rfl]
  · intro b other
    rw [idle_feed, restart, if_neg other]
  · exact login_agrees

end Scanner

end SocksProxy
