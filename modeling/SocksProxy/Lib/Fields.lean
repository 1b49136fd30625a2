/-!
# Messages of fields

A message is a sequence of fields, each either one item that a check accepts or
a string that an item before it announces the length of. `Reader` reads a
message item by item and stops at its end, or at an item that is refused.

* `run_message`: a message of the fields is read to exactly its values, and
  what follows it is left;
* `run_spells`: what a reader has read determines the items it was fed;
* `run_append`: a stream may be cut anywhere before the reader stops.
-/

namespace SocksProxy.Lib

/-- A field, with what its check is called. -/
inductive FieldKind (κ : Type)
  | one (check : κ)
  | counted
  deriving DecidableEq, Repr

/-- A reader before a field (or at the end), inside a string with `left` items to
go, or stopped by an item that was refused. -/
inductive Reader (κ β : Type)
  | between (read : List (List β)) (todo : List (FieldKind κ))
  | within (read : List (List β)) (left : Nat) (part : List β) (todo : List (FieldKind κ))
  | refused (read : List (List β)) (check : κ) (todo : List (FieldKind κ))
  deriving DecidableEq, Repr

section
variable {κ β : Type} (accepts : κ → β → Bool) (count : β → Nat)

def Reader.stopped : Reader κ β → Bool
  | .between _ [] => true
  | .between _ (_ :: _) => false
  | .within _ _ _ _ => false
  | .refused _ _ _ => true

def Reader.feed : Reader κ β → β → Reader κ β
  | .between read [], _ => .between read []
  | .between read (.one check :: todo), b =>
    if accepts check b then .between (read ++ [[b]]) todo else .refused read check todo
  | .between read (.counted :: todo), b =>
    if count b = 0 then .between (read ++ [[]]) todo else .within read (count b) [] todo
  | .within read left part todo, b =>
    if left ≤ 1 then .between (read ++ [part ++ [b]]) todo
    else .within read (left - 1) (part ++ [b]) todo
  | .refused read check todo, _ => .refused read check todo

/-- The reader after a stream, and what it left of it. -/
def Reader.run : Reader κ β → List β → Reader κ β × List β
  | r, [] => (r, [])
  | r, b :: bs =>
    if (r.feed accepts count b).stopped then (r.feed accepts count b, bs)
    else (r.feed accepts count b).run bs

/-- The items `bs` are a message of the fields with the values `vs`. -/
inductive Message : List (FieldKind κ) → List (List β) → List β → Prop
  | nil : Message [] [] []
  | one {check : κ} {b : β} {fs : List (FieldKind κ)} {vs : List (List β)} {bs : List β} :
      accepts check b = true → Message fs vs bs → Message (.one check :: fs) ([b] :: vs) (b :: bs)
  | counted {n : β} {v : List β} {fs : List (FieldKind κ)} {vs : List (List β)} {bs : List β} :
      count n = v.length → Message fs vs bs →
        Message (.counted :: fs) (v :: vs) (n :: (v ++ bs))

variable {accepts : κ → β → Bool} {count : β → Nat} {fs gs : List (FieldKind κ)}
  {vs ws : List (List β)} {bs cs : List β} {r : Reader κ β}

theorem Message.append (h : Message accepts count fs vs bs) (k : Message accepts count gs ws cs) :
    Message accepts count (fs ++ gs) (vs ++ ws) (bs ++ cs) := by
  induction h with
  | nil => exact k
  | one accepted _ ih => exact .one accepted ih
  | counted length _ ih =>
    rw [List.cons_append, List.cons_append, List.cons_append, List.append_assoc]
    exact .counted length ih

/-! ## Reading a message -/

/-- Inside a string, the items to go are read and then the fields after it. -/
theorem run_within (fs : List (FieldKind κ)) {read : List (List β)} {part rest : List β} (v : List β)
    (nonempty : v ≠ []) :
    (Reader.within read v.length part fs).run accepts count (v ++ rest) =
      if fs.isEmpty then (.between (read ++ [part ++ v]) [], rest)
      else (Reader.between (read ++ [part ++ v]) fs).run accepts count rest := by
  induction v generalizing part with
  | nil => exact absurd rfl nonempty
  | cons b v ih =>
    by_cases last : v = []
    · subst last
      cases fs <;> simp [Reader.run, Reader.feed, Reader.stopped]
    · have more : ¬ (v.length + 1 ≤ 1) := by
        have := List.length_pos_iff.mpr last
        omega
      simp only [List.cons_append, Reader.run, Reader.feed, List.length_cons, more, if_false,
        Reader.stopped, Bool.false_eq_true, Nat.add_sub_cancel]
      rw [ih last, List.append_assoc]
      rfl

/-- A message is read to its values, and what follows it is left. -/
theorem run_message (h : Message accepts count fs vs bs) (nonempty : fs ≠ [])
    (read : List (List β)) (rest : List β) :
    (Reader.between read fs).run accepts count (bs ++ rest) =
      (.between (read ++ vs) [], rest) := by
  induction h generalizing read with
  | nil => exact absurd rfl nonempty
  | @one check b fs vs bs accepted tail ih =>
    cases tail with
    | nil => simp [Reader.run, Reader.feed, accepted, Reader.stopped]
    | one _ _ =>
      have next := ih (by simp) (read ++ [[b]])
      simpa [Reader.run, Reader.feed, accepted, Reader.stopped] using next
    | counted _ _ =>
      have next := ih (by simp) (read ++ [[b]])
      simpa [Reader.run, Reader.feed, accepted, Reader.stopped] using next
  | @counted n v fs vs bs length tail ih =>
    by_cases empty : v = []
    · subst empty
      have zero : count n = 0 := length
      cases tail with
      | nil => simp [Reader.run, Reader.feed, zero, Reader.stopped]
      | one _ _ =>
        have next := ih (by simp) (read ++ [[]])
        simpa [Reader.run, Reader.feed, zero, Reader.stopped] using next
      | counted _ _ =>
        have next := ih (by simp) (read ++ [[]])
        simpa [Reader.run, Reader.feed, zero, Reader.stopped] using next
    · have some' : count n ≠ 0 := by
        rw [length]
        exact fun zero => empty (List.length_eq_zero_iff.mp zero)
      have inside : (Reader.between read (.counted :: fs)).run accepts count
          (n :: (v ++ (bs ++ rest))) =
            (Reader.within read v.length [] fs).run accepts count (v ++ (bs ++ rest)) := by
        rw [Reader.run, Reader.feed, if_neg some', length]
        rfl
      rw [List.cons_append, List.append_assoc, inside, run_within fs v empty]
      cases tail with
      | nil => simp
      | one _ _ =>
        have next := ih (by simp) (read ++ [v])
        simpa using next
      | counted _ _ =>
        have next := ih (by simp) (read ++ [v])
        simpa using next

/-! ## What a reader was fed -/

/-- The stream `fed` leaves a reader of the fields `fs` as it is. -/
inductive Spells (accepts : κ → β → Bool) (count : β → Nat) (fs : List (FieldKind κ)) (fed : List β) :
    Reader κ β → Prop
  | between {past todo : List (FieldKind κ)} {read : List (List β)} : fs = past ++ todo →
      Message accepts count past read fed → Spells accepts count fs fed (.between read todo)
  | within {past todo : List (FieldKind κ)} {read : List (List β)} {bs part : List β} {n : β}
      {left : Nat} : fs = past ++ .counted :: todo → Message accepts count past read bs →
      fed = bs ++ n :: part → count n = part.length + left → 0 < left →
      Spells accepts count fs fed (.within read left part todo)
  | refused {past todo : List (FieldKind κ)} {read : List (List β)} {check : κ} {bs : List β} {b : β} :
      fs = past ++ .one check :: todo → Message accepts count past read bs → fed = bs ++ [b] →
      accepts check b = false → Spells accepts count fs fed (.refused read check todo)

theorem spells_start : Spells accepts count fs [] (.between [] fs) := .between rfl .nil

theorem spells_feed {fed : List β} (h : Spells accepts count fs fed r) (going : r.stopped = false)
    (b : β) : Spells accepts count fs (fed ++ [b]) (r.feed accepts count b) := by
  cases h with
  | @between past todo read split message =>
    cases todo with
    | nil => cases going
    | cons f todo =>
      cases f with
      | one check =>
        by_cases accepted : accepts check b = true
        · rw [Reader.feed, if_pos accepted]
          exact .between (by rw [split, List.append_assoc]; rfl) (message.append (.one accepted .nil))
        · rw [Reader.feed, if_neg accepted]
          exact .refused split message rfl (Bool.eq_false_iff.mpr accepted)
      | counted =>
        by_cases zero : count b = 0
        · rw [Reader.feed, if_pos zero]
          exact .between (by rw [split, List.append_assoc]; rfl)
            (message.append (.counted (v := []) zero .nil))
        · rw [Reader.feed, if_neg zero]
          exact .within split message rfl (by simp) (by omega)
  | @within past todo read bs part n left split message fed length some' =>
    by_cases last : left ≤ 1
    · rw [Reader.feed, if_pos last]
      have whole : count n = (part ++ [b]).length := by
        rw [List.length_append, List.length_singleton]
        omega
      have split' : fs = past ++ [.counted] ++ todo := by rw [split, List.append_assoc]; rfl
      refine .between split' ?_
      rw [fed, List.append_assoc]
      have message := message.append (.counted whole .nil)
      rwa [List.append_nil] at message
    · rw [Reader.feed, if_neg last]
      refine .within split message (by rw [fed, List.append_assoc]; rfl) ?_ (by omega)
      rw [List.length_append, List.length_singleton]
      omega
  | refused split message fed refused => cases going

theorem run_spells {fed : List β} (xs : List β) (h : Spells accepts count fs fed r) (going : r.stopped = false) :
    ∃ more, xs = more ++ (r.run accepts count xs).2 ∧
      Spells accepts count fs (fed ++ more) (r.run accepts count xs).1 ∧
      ((r.run accepts count xs).1.stopped = false → (r.run accepts count xs).2 = []) := by
  induction xs generalizing r fed with
  | nil => exact ⟨[], rfl, by simpa [Reader.run] using h, fun _ => rfl⟩
  | cons b xs ih =>
    have next := spells_feed h going b
    by_cases stops : (r.feed accepts count b).stopped = true
    · rw [Reader.run, if_pos stops]
      refine ⟨[b], rfl, next, fun runs => ?_⟩
      rw [stops] at runs
      cases runs
    · rw [Reader.run, if_neg stops]
      obtain ⟨more, split, last, left⟩ := ih next (Bool.eq_false_iff.mpr stops)
      refine ⟨b :: more, ?_, ?_, left⟩
      · rw [List.cons_append, ← split]
      · rw [List.append_cons]
        exact last

/-- What comes after the item at which the reader stops is left. -/
theorem run_stops_append {xs ys : List β} (stops : (r.run accepts count xs).1.stopped = true)
    (going : r.stopped = false) :
    r.run accepts count (xs ++ ys) =
      ((r.run accepts count xs).1, (r.run accepts count xs).2 ++ ys) := by
  induction xs generalizing r with
  | nil => exact absurd (going.symm.trans stops) (by decide)
  | cons b xs ih =>
    by_cases here : (r.feed accepts count b).stopped = true
    · simp only [List.cons_append, Reader.run, if_pos here]
    · simp only [List.cons_append, Reader.run, if_neg here] at stops ⊢
      exact ih stops (Bool.eq_false_iff.mpr here)

/-- A reader that goes on has taken the whole stream. -/
theorem run_going_rest {xs : List β} (runs : (r.run accepts count xs).1.stopped = false) :
    (r.run accepts count xs).2 = [] := by
  induction xs generalizing r with
  | nil => rfl
  | cons b xs ih =>
    by_cases here : (r.feed accepts count b).stopped = true
    · rw [Reader.run, if_pos here] at runs
      exact absurd (here.symm.trans runs) (by decide)
    · rw [Reader.run, if_neg here] at runs ⊢
      exact ih runs

/-- A stream may be cut anywhere before the reader stops. -/
theorem run_append {xs ys : List β} (going : r.stopped = false)
    (runs : (r.run accepts count xs).1.stopped = false) :
    r.run accepts count (xs ++ ys) = (r.run accepts count xs).1.run accepts count ys := by
  induction xs generalizing r with
  | nil => rfl
  | cons b xs ih =>
    by_cases stops : (r.feed accepts count b).stopped = true
    · rw [Reader.run, if_pos stops] at runs
      rw [stops] at runs
      cases runs
    · simp only [List.cons_append, Reader.run, if_neg stops] at runs ⊢
      exact ih (Bool.eq_false_iff.mpr stops) runs

end

end SocksProxy.Lib
