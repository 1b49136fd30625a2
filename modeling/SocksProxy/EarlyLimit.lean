import SocksProxy.Logins

/-!
# The limit before the end

The handlers test for 255 bytes before they look for CR and LF, so a field of 255
bytes never ends. The machine then searches on, behind the scan, and the two meet
again where the scan gives the sequence up, unless it gives up because a password
is too long.
-/

namespace SocksProxy

open Lib

/-- Both fields are shorter than the limit. -/
def Short (pair : List UInt8 × List UInt8) : Prop :=
  pair.1.length < maxField ∧ pair.2.length < maxField

namespace Scanner

/-- No field has more bytes than the limit. -/
def Bounded : Scanner → Prop
  | userWord _ | passWord _ _ => True
  | username bytes _ => bytes.length ≤ maxField
  | password _ bytes _ => bytes.length ≤ maxField

/-- The password behind a name of 255 bytes has a byte too many. -/
def overLong : Scanner → UInt8 → Bool
  | password name bytes false, b =>
    decide (maxField ≤ name.length ∧ maxField ≤ bytes.length ∧ b ≤ 127 ∧ b ≠ cr ∧ b ≠ lf)
  | _, _ => false

/-- The same for a byte of the stream, where the scan goes on from this state. -/
def hasOverLong : Scanner → List UInt8 → Bool
  | _, [] => false
  | q, b :: s => q.overLong b || hasOverLong (q.feed false b).1 s

/-- A search that began within the bytes of a field. -/
inductive Searching (bytes : List UInt8) (last : Bool) : Scanner → Prop
  | word {k : Nat} : k ≤ bytes.length → k < userL → (last = true → k = 0) →
      Searching bytes last (userWord k)
  | name {name : List UInt8} : name.length + userL ≤ bytes.length →
      Searching bytes last (username name last)

/-- The early machine is where the scan is, or searches behind a full field. -/
inductive Tracks : Scanner → Scanner → Prop
  | same {q : Scanner} : q.Bounded → Tracks q q
  | nameEnd {name : List UInt8} : maxField ≤ name.length → Tracks (username name true) idle
  | between {name : List UInt8} {k : Nat} : maxField ≤ name.length → Tracks (passWord name k) idle
  | within {name bytes : List UInt8} {last : Bool} {q : Scanner} :
      (maxField ≤ name.length ∨ last = true ∧ maxField ≤ bytes.length) →
      bytes.length ≤ maxField → Searching bytes last q → Tracks (password name bytes last) q

variable {q q' : Scanner} {b : UInt8} {bytes name : List UInt8} {last : Bool} {k : Nat}

/-! ## Single bytes -/

theorem userWord_plain (h : userReservedPop3Word[k]? = some b) : b ≤ 127 ∧ b ≠ cr ∧ b ≠ lf := by
  have plain : ∀ x ∈ userReservedPop3Word, x ≤ 127 ∧ x ≠ cr ∧ x ≠ lf := by decide +kernel
  exact plain b (List.mem_of_getElem? h)

theorem passWord_other (h : passReservedPop3Word[k]? = some b) : restart b = idle := by
  have other : ∀ x ∈ passReservedPop3Word, x ≠ 0x75 := by decide +kernel
  rw [restart, if_neg (other b (List.mem_of_getElem? h))]

theorem restart_bounded (b : UInt8) : (restart b).Bounded := by
  rw [restart]
  split
  · trivial
  · trivial

theorem idle_searching (bytes : List UInt8) (last : Bool) : Searching bytes last idle :=
  .word (Nat.zero_le _) (by decide) (fun _ => rfl)

theorem fieldStep_full (full : maxField ≤ bytes.length) :
    fieldStep true bytes last b = .breaks := by
  rw [fieldStep, if_pos ⟨rfl, full⟩]

/-- Only the end of a full field shows which test comes first. -/
theorem fieldStep_early (ends : ¬ (maxField ≤ bytes.length ∧ (b = cr ∨ b = lf))) :
    fieldStep true bytes last b = fieldStep false bytes last b := by
  by_cases full : maxField ≤ bytes.length
  · obtain ⟨notCr, notLf⟩ := not_or.mp (fun h => ends ⟨full, h⟩)
    have over' : ¬ (b ≤ 127 ∧ bytes.length < maxField) := fun h => Nat.not_lt.mpr full h.2
    rw [fieldStep_other false notCr notLf over', fieldStep_full full]
  · simp [fieldStep, full]

theorem fieldStep_reads {bytes' : List UInt8} {last' early : Bool}
    (h : fieldStep early bytes last b = .reads bytes' last') (bounded : bytes.length ≤ maxField) :
    bytes'.length ≤ maxField := by
  simp only [fieldStep] at h
  split at h
  · cases h
  split at h
  · cases h
  split at h
  · obtain ⟨rfl, -⟩ := FieldStep.reads.inj h
    exact bounded
  split at h
  · cases h
  split at h
  · rename_i more
    obtain ⟨rfl, -⟩ := FieldStep.reads.inj h
    rw [List.length_append]
    exact more.2
  · cases h

theorem feed_bounded (early : Bool) (bounded : q.Bounded) (b : UInt8) :
    (q.feed early b).1.Bounded := by
  cases q with
  | userWord k =>
    rw [feed]
    split
    · dsimp only
      split
      · exact Nat.zero_le _
      · trivial
    · exact restart_bounded b
  | username bytes last =>
    rw [feed]
    cases step : fieldStep early bytes last b with
    | reads bytes' last' => exact fieldStep_reads step bounded
    | ends => trivial
    | breaks => exact restart_bounded b
  | passWord name k =>
    rw [feed]
    split
    · dsimp only
      split
      · exact Nat.zero_le _
      · trivial
    · exact restart_bounded b
  | password name bytes last =>
    rw [feed]
    cases step : fieldStep early bytes last b with
    | reads bytes' last' => exact fieldStep_reads step bounded
    | ends => trivial
    | breaks => exact restart_bounded b

/-! ## Searches within a field -/

/-- A byte that breaks the field off breaks the search off. -/
theorem searching_breaks (h : Searching bytes last q)
    (breaks : ¬ b ≤ 127 ∨ last = true ∧ b ≠ lf) : q.feed true b = (restart b, []) := by
  cases h with
  | @word k _ _ zero =>
    rcases breaks with high | ⟨pending, -⟩
    · rw [feed, if_neg fun here => high (userWord_plain here).1]
    · obtain rfl := zero pending
      exact idle_feed true b
  | @name name within =>
    have broken : fieldStep true name last b = .breaks := by
      rcases breaks with high | ⟨rfl, notLf⟩
      · have notCr : b ≠ cr := fun same => high (same ▸ by decide)
        have notLf : b ≠ lf := fun same => high (same ▸ by decide)
        exact fieldStep_other true notCr notLf fun h => high h.1
      · exact fieldStep_pending true notLf
    rw [feed, broken, nameStep]

theorem searching_cr (h : Searching bytes false q) (short : bytes.length ≤ maxField) :
    (q.feed true cr).2 = [] ∧ Searching bytes true (q.feed true cr).1 := by
  cases h with
  | @word k =>
    rw [feed, if_neg fun here => (userWord_plain here).2.1 rfl]
    exact ⟨rfl, idle_searching bytes true⟩
  | @name name within =>
    simp only [userL] at within
    rw [feed, fieldStep_cr true fun _ => by omega]
    exact ⟨rfl, .name within⟩

/-- A byte of the field is one of the search. -/
theorem searching_reads (h : Searching bytes false q) (room : bytes.length < maxField)
    (low : b ≤ 127) (notCr : b ≠ cr) (notLf : b ≠ lf) :
    (q.feed true b).2 = [] ∧ Searching (bytes ++ [b]) false (q.feed true b).1 := by
  have longer : (bytes ++ [b]).length = bytes.length + 1 := List.length_append
  cases h with
  | @word k few small zero =>
    rw [feed]
    split
    · refine ⟨rfl, ?_⟩
      dsimp only
      split
      · apply Searching.name
        rw [longer, List.length_nil]
        omega
      · apply Searching.word
        · omega
        · omega
        · intro pending
          cases pending
    · refine ⟨rfl, ?_⟩
      rw [restart]
      split
      · apply Searching.word
        · omega
        · decide
        · intro pending
          cases pending
      · exact idle_searching _ _
  | @name name within =>
    simp only [userL] at within
    rw [feed, fieldStep_byte true low notCr notLf (by omega)]
    refine ⟨rfl, .name ?_⟩
    rw [longer, List.length_append, List.length_singleton, userL]
    omega

/-! ## Steps and streams -/

theorem restart_lf : restart lf = idle := rfl

theorem restart_cr : restart cr = idle := rfl

/-- The end of a full field puts the early machine behind the scan. -/
theorem full_tracks (bounded : q.Bounded) (fits : ∀ pair ∈ (q.feed false b).2, Short pair)
    (ends : q.feed true b ≠ q.feed false b) :
    (q.feed true b).2 = (q.feed false b).2 ∧ Tracks (q.feed false b).1 (q.feed true b).1 := by
  cases q with
  | userWord k => exact absurd rfl ends
  | passWord name k => exact absurd rfl ends
  | username bytes last =>
    have full : maxField ≤ bytes.length ∧ (b = cr ∨ b = lf) := by
      by_contra other
      exact ends (by rw [feed, feed, fieldStep_early other])
    rcases full with ⟨full, rfl | rfl⟩
    · cases last with
      | false =>
        rw [feed, feed, fieldStep_full full, fieldStep_cr false late_room, nameStep, nameStep,
          restart_cr]
        exact ⟨rfl, .nameEnd full⟩
      | true =>
        exact absurd
          (by rw [feed, feed, fieldStep_full full, fieldStep_pending false (by decide)]) ends
    · rw [feed, feed, fieldStep_full full, fieldStep_lf false late_room, nameStep, nameStep, restart_lf]
      exact ⟨rfl, .between full⟩
  | password name bytes last =>
    have full : maxField ≤ bytes.length ∧ (b = cr ∨ b = lf) := by
      by_contra other
      exact ends (by rw [feed, feed, fieldStep_early other])
    rcases full with ⟨full, rfl | rfl⟩
    · cases last with
      | false =>
        rw [feed, feed, fieldStep_full full, fieldStep_cr false late_room, passStep, passStep,
          restart_cr]
        exact ⟨rfl, .within (Or.inr ⟨rfl, full⟩) bounded (idle_searching _ _)⟩
      | true =>
        exact absurd
          (by rw [feed, feed, fieldStep_full full, fieldStep_pending false (by decide)]) ends
    · rw [feed, fieldStep_lf false late_room] at fits
      have short := (fits _ (List.mem_singleton.mpr rfl)).2
      exact absurd full (Nat.not_le.mpr short)

/-- A byte keeps the early machine where the scan is or behind it, and puts out the same. -/
theorem feed_tracks (tracks : Tracks q q') (fits : ∀ pair ∈ (q.feed false b).2, Short pair)
    (ends : q.overLong b = false) :
    (q'.feed true b).2 = (q.feed false b).2 ∧ Tracks (q.feed false b).1 (q'.feed true b).1 := by
  cases tracks with
  | same bounded =>
    by_cases same : q.feed true b = q.feed false b
    · rw [same]
      exact ⟨rfl, .same (feed_bounded false bounded b)⟩
    · exact full_tracks bounded fits same
  | @nameEnd name full =>
    rw [idle_feed, feed]
    by_cases isLf : b = lf
    · rw [isLf, fieldStep_lf false late_room, restart_lf]
      exact ⟨rfl, .between full⟩
    · rw [fieldStep_pending false isLf]
      exact ⟨rfl, .same (restart_bounded b)⟩
  | @between name k full =>
    rw [idle_feed, feed]
    split
    · rename_i here
      rw [passWord_other here]
      refine ⟨rfl, ?_⟩
      dsimp only
      split
      · exact .within (Or.inl full) (Nat.zero_le _) (idle_searching _ _)
      · exact .between full
    · exact ⟨rfl, .same (restart_bounded b)⟩
  | @within name bytes last _ full short searching =>
    by_cases isLf : b = lf
    · rw [feed, isLf, fieldStep_lf false late_room] at fits
      obtain ⟨shortName, shortBytes⟩ := fits _ (List.mem_singleton.mpr rfl)
      rcases full with full | ⟨-, full⟩
      · exact absurd full (Nat.not_le.mpr shortName)
      · exact absurd full (Nat.not_le.mpr shortBytes)
    cases last with
    | true =>
      rw [feed, fieldStep_pending false isLf, searching_breaks searching (Or.inr ⟨rfl, isLf⟩)]
      exact ⟨rfl, .same (restart_bounded b)⟩
    | false =>
      have full : maxField ≤ name.length := full.resolve_right fun h => by cases h.1
      by_cases isCr : b = cr
      · obtain ⟨quiet, searching⟩ := searching_cr searching short
        rw [feed, isCr, fieldStep_cr false late_room]
        exact ⟨quiet, .within (Or.inl full) short searching⟩
      by_cases low : b ≤ 127
      · by_cases room : bytes.length < maxField
        · obtain ⟨quiet, searching⟩ := searching_reads searching room low isCr isLf
          rw [feed, fieldStep_byte false low isCr isLf room]
          refine ⟨quiet, .within (Or.inl full) ?_ searching⟩
          rw [List.length_append]
          exact room
        · exact absurd ⟨full, Nat.le_of_not_lt room, low, isCr, isLf⟩ (of_decide_eq_false ends)
      · rw [feed, fieldStep_other false isCr isLf (fun h => low h.1),
          searching_breaks searching (Or.inl low)]
        exact ⟨rfl, .same (restart_bounded b)⟩

/-- Without a full field in a login or a password that is too long behind a full name, the
early machine finds what the scan finds. -/
theorem emit_early (tracks : Tracks q q') (s : List UInt8)
    (fits : ∀ pair ∈ emit (feed false) q s, Short pair)
    (ends : q.hasOverLong s = false) :
    emit (feed true) q' s = emit (feed false) q s := by
  induction s generalizing q q' with
  | nil => rfl
  | cons b s ih =>
    simp only [emit, List.mem_append] at fits
    obtain ⟨here, later⟩ := Bool.or_eq_false_iff.mp ends
    obtain ⟨same, onward⟩ := feed_tracks tracks (fun pair member => fits pair (Or.inl member)) here
    rw [emit, emit, same, ih onward (fun pair member => fits pair (Or.inr member)) later]

/-- The fields that the early machine has read are shorter than the limit. -/
def Closed : Scanner → Prop
  | userWord _ | username _ _ => True
  | passWord name _ => name.length < maxField
  | password name _ _ => name.length < maxField

theorem restart_closed (b : UInt8) : (restart b).Closed := by
  rw [restart]
  split
  · trivial
  · trivial

theorem fieldStep_ends (h : fieldStep true bytes last b = .ends) : bytes.length < maxField := by
  by_contra full
  rw [fieldStep_full (Nat.le_of_not_lt full)] at h
  cases h

theorem feed_closed (closed : q.Closed) (b : UInt8) :
    (q.feed true b).1.Closed ∧ ∀ pair ∈ (q.feed true b).2, Short pair := by
  have quiet : ∀ pair ∈ ([] : List (List UInt8 × List UInt8)), Short pair := nofun
  cases q with
  | userWord k =>
    rw [feed]
    split
    · refine ⟨?_, quiet⟩
      dsimp only
      split
      · trivial
      · trivial
    · exact ⟨restart_closed b, quiet⟩
  | username bytes last =>
    rw [feed]
    cases step : fieldStep true bytes last b with
    | reads bytes' last' => exact ⟨trivial, quiet⟩
    | ends => exact ⟨fieldStep_ends step, quiet⟩
    | breaks => exact ⟨restart_closed b, quiet⟩
  | passWord name k =>
    rw [feed]
    split
    · refine ⟨?_, quiet⟩
      dsimp only
      split
      · exact closed
      · exact closed
    · exact ⟨restart_closed b, quiet⟩
  | password name bytes last =>
    rw [feed]
    cases step : fieldStep true bytes last b with
    | reads bytes' last' => exact ⟨closed, quiet⟩
    | ends =>
      refine ⟨trivial, fun pair member => ?_⟩
      rw [List.mem_singleton.mp member]
      exact ⟨closed, fieldStep_ends step⟩
    | breaks => exact ⟨restart_closed b, quiet⟩

/-- The early machine finds no field of 255 bytes. -/
theorem early_short (closed : q.Closed) (s : List UInt8) :
    ∀ pair ∈ emit (feed true) q s, Short pair := by
  induction s generalizing q with
  | nil => exact nofun
  | cons b s ih =>
    intro pair member
    rw [emit, List.mem_append] at member
    obtain ⟨onward, shorts⟩ := feed_closed closed b
    rcases member with here | later
    · exact shorts pair here
    · exact ih onward pair later

end Scanner

end SocksProxy
