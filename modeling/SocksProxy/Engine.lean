import SocksProxy.Framing
import SocksProxy.Lib.Follow

/-!
# The laws of the parser engine

A description is any sequence of single bytes, texts of a fixed size and texts
that a byte before them announces, each with any check. `Progress` says where a
stream has come to in it; the parser is compared with that, call by call.
-/

namespace SocksProxy

open Lib

/-- A block is what the substate's `result` points at before the parser starts. -/
inductive Piece
  | single (block : List UInt8) (check : Option Check)
  | fixed (size : UInt8) (block : List UInt8) (check : Option Check)
  | counted (check : Option Check)

/-- The substates of a description. A byte needs a place in its block, a text
also one for its NUL. -/
inductive PieceTable : List Piece → List ParserSubstate → Prop
  | nil : PieceTable [] []
  | single {block : List UInt8} {check : Option Check} {size remaining : UInt8}
      {pieces : List Piece} {rest : List ParserSubstate} : block ≠ [] → PieceTable pieces rest →
      PieceTable (.single block check :: pieces)
        (⟨.singleRead, some block, check, size, remaining⟩ :: rest)
  | fixed {size : UInt8} {block : List UInt8} {check : Option Check} {pieces : List Piece}
      {rest : List ParserSubstate} : size.toNat < block.length → PieceTable pieces rest →
      PieceTable (.fixed size block check :: pieces)
        (⟨.longRead, some block, check, size, size⟩ :: rest)
  | counted {length text : ParserSubstate} {check : Option Check} {pieces : List Piece}
      {rest : List ParserSubstate} : length.state = .readN → text.state = .longRead →
      text.checkFunction = check → PieceTable pieces rest →
      PieceTable (.counted check :: pieces) (length :: text :: rest)

structure Parser.Describes (p : Parser) (pieces : List Piece) : Prop where
  table : PieceTable pieces p.states
  size : p.size = p.states.length
  overread : p.overread = false

/-- Before a piece (`todo` is empty at the end), in a text, or at a piece that was
rejected. -/
inductive Progress
  | before (todo : List Piece)
  | within (size : UInt8) (block : List UInt8) (check : Option Check) (text : List UInt8)
      (todo : List Piece)
  | rejected

/-- A block with bytes at its start. -/
def written (block bytes : List UInt8) : List UInt8 := bytes ++ block.drop bytes.length

/-- A byte after the bytes `text` of a text. Its last byte ends it with a NUL. -/
def Progress.text (size : UInt8) (block : List UInt8) (check : Option Check) (text : List UInt8)
    (todo : List Piece) (b : UInt8) : Progress :=
  if text.length + 1 = size.toNat then
    match runCheck check (written block (text ++ [b, 0])) size with
    | none => .before todo
    | some _ => .rejected
  else .within size block check (text ++ [b]) todo

def Progress.feed : Progress → UInt8 → Progress
  | .before [], _ => .before []
  | .before (.single block check :: todo), b =>
    match runCheck check (written block [b]) 1 with
    | none => .before todo
    | some _ => .rejected
  | .before (.fixed size block check :: todo), b => Progress.text size block check [] todo b
  | .before (.counted check :: todo), b =>
    if b.toNat = 0 then .before todo
    else .within b (mallocBytes (b.toNat + 1)) check [] todo
  | .within size block check text todo, b => Progress.text size block check text todo b
  | .rejected, _ => .rejected

def Progress.halted : Progress → Bool
  | .before [] | .rejected => true
  | .before (_ :: _) | .within _ _ _ _ _ => false

/-- What the parser answers: an error at a rejection, done at the end, and the
substates are not indexed past their number. -/
def Parser.Answers (p : Parser) (state : ParserState) (r : Progress) : Prop :=
  p.overread = false ∧ (state = .errorRead ↔ r = .rejected) ∧ (state = .doneRead ↔ r = .before [])

/-- `parser_feed` of a byte, or `consume` of a buffer. -/
inductive ParserCall
  | byte (b : UInt8)
  | buffer (b : Buffer)

def ParserCall.run (p : Parser) : ParserCall → Result Parser
  | .byte b => parserFeed p b
  | .buffer b => consume b p >>= fun ⟨_, p, _, _⟩ => .ok p

/-- The bytes that a call feeds: `consume` stops at the end and at a rejection. -/
def ParserCall.bytes (r : Progress) : ParserCall → List UInt8
  | .byte b => [b]
  | .buffer b => takenUntil Progress.feed Progress.halted r (bufferReadPtr b)

def ParserCall.next (r : Progress) (call : ParserCall) : Progress :=
  (call.bytes r).foldl Progress.feed r

/-- Each byte of a call is answered as it should be; `consume` returns the answer to
its last byte and sets `*error` at a rejection. -/
def ParserCall.Lawful (p : Parser) (r : Progress) (call : ParserCall) (p' : Parser) : Prop :=
  Follows parserFeed Progress.feed (fun _ r b q => q.Answers q.current (r.feed b)) p r
      (call.bytes r) ∧
    match call with
    | .byte _ => True
    | .buffer b => bufferCanRead b → ∃ b' st error, consume b p = .ok (b', p', st, error) ∧
        p'.Answers st (call.next r) ∧ (error = true ↔ call.next r = .rejected)

/-- The calls on a parser that was just initialised. -/
def Parser.Lawful (p : Parser) (pieces : List Piece) (calls : List ParserCall) : Prop :=
  ∃ q, parserInit p = .ok q ∧
    Follows ParserCall.run ParserCall.next ParserCall.Lawful q (.before pieces) calls

/-- The byte is not refused by the check of a single byte, nor is that the last piece;
there is a piece to read; and a text of no bytes has not had one yet. -/
def Progress.Safe : Progress → UInt8 → Prop
  | .before [], _ => False
  | .before (.single block check :: todo), b =>
    runCheck check (written block [b]) 1 = none ∧ todo ≠ []
  | .before (.fixed _ _ _ :: _), _ | .before (.counted _ :: _), _ => True
  | .within size _ _ _ _, _ => size ≠ 0
  | .rejected, _ => True

def ParserCall.Safe (r : Progress) (call : ParserCall) : Prop :=
  Throughout Progress.feed Progress.Safe r (call.bytes r)

/-- The state of the parser before the substates `rest`. -/
def stateBefore : List ParserSubstate → ParserState
  | [] => .doneRead
  | s :: _ => s.state

/-- The parser is where the stream has come to. -/
inductive Parser.ReadTo (p : Parser) : Progress → Prop
  | before {past rest : List ParserSubstate} {todo : List Piece} : p.states = past ++ rest →
      p.states ≠ [] → PieceTable todo rest → p.index = past.length →
      p.current = stateBefore rest → p.ReadTo (.before todo)
  | within {past rest : List ParserSubstate} {todo : List Piece} {size remaining : UInt8}
      {block text : List UInt8} {check : Option Check} :
      p.states = past ++ ⟨.longRead, some (written block text), check, size, remaining⟩ :: rest →
      PieceTable todo rest → p.index = past.length → p.current = .longRead →
      size.toNat < block.length → text.length + remaining.toNat = size.toNat →
      0 < remaining.toNat → p.ReadTo (.within size block check text todo)
  -- the counter of a text of no bytes wrapped at its first byte
  | wrapped {past rest : List ParserSubstate} {todo : List Piece} {remaining : UInt8}
      {result : Option (List UInt8)} {block text : List UInt8} {check : Option Check} :
      p.states = past ++ ⟨.longRead, result, check, 0, remaining⟩ :: rest →
      p.index = past.length → p.current = .longRead → 0 < remaining.toNat →
      p.ReadTo (.within 0 block check text todo)
  | rejected : p.index < p.states.length → p.current = .errorRead → p.ReadTo .rejected

structure Parser.Tracks (p : Parser) (r : Progress) : Prop where
  size : p.size = p.states.length
  overread : p.overread = false
  readTo : p.ReadTo r

section
variable {p p' : Parser} {r : Progress} {pieces todo : List Piece} {past rest : List ParserSubstate}
  {block text bytes : List UInt8} {check : Option Check} {size remaining : UInt8} {b : UInt8}

@[simp] theorem written_length (fits : bytes.length ≤ block.length) :
    (written block bytes).length = block.length := by
  simp [written]
  omega

/-- A byte is stored behind those that are there. -/
theorem set_written (fits : bytes.length < block.length) (b : UInt8) :
    (written block bytes).set bytes.length b = written block (bytes ++ [b]) := by
  have split : block.drop bytes.length = block[bytes.length] :: block.drop (bytes.length + 1) :=
    List.drop_eq_getElem_cons fits
  rw [written, written, split, set_middle, List.append_assoc, List.length_append]
  rfl

/-- The parser is before what is left of its table. -/
theorem moveTo_tracks (begun : past ≠ []) (states : p.states = past ++ rest)
    (table : PieceTable todo rest) (size : p.size = p.states.length) (overread : p.overread = false) :
    (p.moveTo past.length).Tracks (.before todo) := by
  have nonempty : p.states ≠ [] := by simp [states, begun]
  unfold Parser.moveTo
  cases rest with
  | nil =>
    have last : p.size ≤ past.length := by simp [size, states]
    rw [if_pos last]
    exact ⟨size, overread, .before states nonempty table rfl rfl⟩
  | cons s rest =>
    have more : ¬ p.size ≤ past.length := by simp [size, states]
    have next : p.states[past.length]? = some s := by simp [states]
    rw [if_neg more, next]
    exact ⟨size, overread, .before states nonempty table rfl rfl⟩

theorem tracks_answers (tracks : p.Tracks r) : p.Answers p.current r := by
  refine ⟨tracks.overread, ?_⟩
  cases tracks.readTo with
  | before _ _ table _ current =>
    rw [current]
    cases table <;> simp_all [stateBefore]
  | within _ _ _ current => simp [current]
  | wrapped _ _ current => simp [current]
  | rejected _ current => simp [current]

theorem tracks_halted (tracks : p.Tracks r) : isDone p.current = r.halted := by
  cases tracks.readTo with
  | before _ _ table _ current =>
    rw [current]
    cases table <;> simp_all [stateBefore, isDone, Progress.halted]
  | within _ _ _ current => simp [current, isDone, Progress.halted]
  | wrapped _ _ current => simp [current, isDone, Progress.halted]
  | rejected _ current => simp [current, isDone, Progress.halted]

/-- A byte of a text that has begun, or begins with it. -/
theorem text_tracks (tracked : p.size = p.states.length ∧ p.overread = false)
    (states : p.states = past ++ ⟨.longRead, some (written block text), check, size, remaining⟩ :: rest)
    (table : PieceTable todo rest) (index : p.index = past.length) (current : p.current = .longRead)
    (room : size.toNat < block.length) (sum : text.length + remaining.toNat = size.toNat)
    (more : 0 < remaining.toNat) (b : UInt8) :
    ∃ p', parserFeed p b = .ok p' ∧ p'.Tracks (Progress.text size block check text todo b) := by
  let s : ParserSubstate := ⟨.longRead, some (written block text), check, size, remaining⟩
  have here : p.states[p.index]? = some s := by simp [states, index, s]
  have inside : ¬ p.size ≤ p.index := by simp [tracked.1, states, index]
  have place : size.toNat - remaining.toNat = text.length := by omega
  have fed := parserFeed_longRead b current here rfl
    (show size.toNat < (written block text).length by rw [written_length (by omega)]; exact room)
    more (show remaining.toNat ≤ size.toNat by omega)
  simp only [s, place] at fed
  rw [set_written (by omega)] at fed
  have stored (after : List UInt8) : (p.stored s after).states =
      past ++ ⟨.longRead, some after, check, size, remaining - 1⟩ :: rest := by
    simp [Parser.stored, states, index, s]
  have length (after : List UInt8) :
      (p.stored s after).size = (p.stored s after).states.length := by
    simp [Parser.stored, tracked.1]
  have quiet (after : List UInt8) : (p.stored s after).overread = false := by
    simp [Parser.stored, tracked.2, inside]
  unfold Progress.text
  by_cases last : remaining.toNat = 1
  · have whole : text.length + 1 = size.toNat := by omega
    have ends : (written block (text ++ [b])).set size.toNat 0 = written block (text ++ [b, 0]) := by
      have at' : size.toNat = (text ++ [b]).length := by simp [whole]
      rw [at', set_written (by omega), List.append_assoc]
      rfl
    rw [if_pos last, ends] at fed
    rw [if_pos whole, fed]
    generalize written block (text ++ [b, 0]) = ended
    cases runCheck check ended size with
    | some e =>
      refine ⟨_, rfl, length ended, quiet ended, .rejected ?_ rfl⟩
      simp [Parser.stored, states, index]
    | none =>
      refine ⟨_, rfl, ?_⟩
      have states' := (stored ended).trans (List.append_cons ..)
      have moved := moveTo_tracks (by simp) states' table (length ended) (quiet ended)
      rwa [List.length_append, List.length_singleton, ← index] at moved
  · have part : ¬ text.length + 1 = size.toNat := by omega
    have next : (remaining - 1).toNat = remaining.toNat - 1 := by
      rw [UInt8.toNat_sub_of_le _ _ (by rw [UInt8.le_iff_toNat_le]; exact more)]
      rfl
    rw [if_neg last] at fed
    rw [if_neg part]
    let kept := written block (text ++ [b])
    refine ⟨p.stored s kept, fed, length kept, quiet kept,
      .within (stored kept) table index current room ?_ ?_⟩
    · rw [List.length_append, List.length_singleton, next]
      omega
    · omega

/-- A single byte: the substate behind it is loaded, and a rejection leaves `current`. -/
theorem parserFeed_single (inside : ¬ p.size ≤ past.length) (quiet : p.overread = false)
    (states : p.states = past ++ ⟨.singleRead, some block, check, size, remaining⟩ :: rest)
    (index : p.index = past.length) (current : p.current = .singleRead) (nonempty : block ≠ [])
    (b : UInt8) :
    let q (state : ParserState) : Parser := { p with
      states := past ++ ⟨state, some (written block [b]), check, size, remaining⟩ :: rest }
    parserFeed p b = .ok (match runCheck check (written block [b]) 1 with
      | none => { (q .singleRead).moveTo (past.length + 1) with
          overread := decide (p.size ≤ past.length + 1) }
      | some e => { q .errorRead with error := e }) := by
  have here : p.states[p.index]? = some ⟨.singleRead, some block, check, size, remaining⟩ := by
    simp [states, index]
  have room : 0 < block.length := List.length_pos_iff.mpr nonempty
  have set : block.set 0 b = written block [b] := @set_written block [] room b
  have put (s : ParserSubstate) : p.states.set p.index s = past ++ s :: rest := by
    rw [states, index, set_middle]
  simp only [parserFeed, current, here, storeAt, room, if_true, ok_bind, set, Parser.setSubstate, put]
  cases runCheck check (written block [b]) 1 with
  | none => simp [Parser.moveTo, index, inside, quiet]
  | some e => simp [index, inside, quiet]

theorem counted_tracks {length string : ParserSubstate}
    (tracked : p.size = p.states.length ∧ p.overread = false)
    (states : p.states = past ++ length :: string :: rest) (table : PieceTable todo rest)
    (long : string.state = .longRead) (index : p.index = past.length) (current : p.current = .readN)
    (b : UInt8) :
    ∃ p', parserFeed p b = .ok p' ∧
      p'.Tracks (Progress.feed (.before (.counted string.checkFunction :: todo)) b) := by
  have inside : ¬ p.size ≤ past.length := by simp [tracked.1, states]
  have more : ¬ p.size ≤ p.index + 1 := by simp [tracked.1, states, index]
  have next : p.states[p.index + 1]? = some string := by simp [states, index]
  have set (s : ParserSubstate) : p.states.set (p.index + 1) s = past ++ [length] ++ s :: rest := by
    have place : p.index + 1 = (past ++ [length]).length := by simp [index]
    rw [states, List.append_cons, place, set_middle]
  have size (s : ParserSubstate) : p.size = (past ++ [length] ++ s :: rest).length := by
    simp [tracked.1, states]
  rw [Progress.feed]
  by_cases zero : b.toNat = 0
  · have empty : b ≤ 0 := by
      rw [UInt8.le_iff_toNat_le, zero]
      exact Nat.zero_le _
    let s : ParserSubstate := { string with remaining := b, size := b, result := some [0] }
    let q : Parser := { p with states := past ++ [length] ++ s :: rest, overread := false }
    have fed : parserFeed p b = .ok (q.moveTo (past.length + 1 + 1)) := by
      simp only [parserFeed, current, if_neg more, next, if_pos empty, Parser.setSubstate]
      rw [set]
      simp [q, s, inside, tracked.2, index, current]
    have states' : q.states = past ++ [length] ++ [s] ++ rest := List.append_cons ..
    have moved := moveTo_tracks (by simp) states' table (size s) rfl
    rw [List.length_append, List.length_append, List.length_singleton, List.length_singleton] at moved
    rw [if_pos zero]
    exact ⟨_, fed, moved⟩
  · have some' : ¬ b ≤ 0 := by
      rw [UInt8.le_iff_toNat_le]
      exact fun le => zero (Nat.le_zero.mp le)
    let block := mallocBytes (b.toNat + 1)
    let s : ParserSubstate := ⟨.longRead, some block, string.checkFunction, b, b⟩
    let q : Parser := { p with
      states := past ++ [length] ++ s :: rest, index := p.index + 1, current := .longRead
      overread := false }
    have fed : parserFeed p b = .ok q := by
      simp only [parserFeed, current, if_neg more, next, if_neg some', Parser.setSubstate]
      rw [set]
      simp [q, s, block, inside, tracked.2, long, index]
    rw [if_neg zero]
    refine ⟨q, fed, size s, rfl, .within rfl table ?_ rfl ?_ (Nat.zero_add _) ?_⟩
    · simp [q, index]
    · simp [mallocBytes]
    · exact Nat.pos_of_ne_zero zero

/-- The first byte of a text of no bytes. -/
theorem wrapped_tracks (tracked : p.size = p.states.length ∧ p.overread = false)
    (states : p.states = past ++ ⟨.longRead, some block, check, 0, 0⟩ :: rest)
    (index : p.index = past.length) (current : p.current = .longRead) (room : 0 < block.length)
    (b : UInt8) :
    ∃ p', parserFeed p b = .ok p' ∧ p'.Tracks (.within 0 block check text todo) := by
  have here : p.states[p.index]? = some ⟨.longRead, some block, check, 0, 0⟩ := by
    simp [states, index]
  have inside : ¬ p.size ≤ past.length := by simp [tracked.1, states]
  have wraps : ¬ (-1 : UInt8) = 0 := by decide
  have put (s : ParserSubstate) : p.states.set past.length s = past ++ s :: rest := by
    rw [states, set_middle]
  let s : ParserSubstate := ⟨.longRead, some (block.set 0 b), check, 0, 0 - 1⟩
  let q : Parser := { p with states := past ++ s :: rest, overread := false }
  have fed : parserFeed p b = .ok q := by
    simp only [parserFeed, current, here]
    simp [storeAt, room, wraps, Parser.setSubstate, put, inside, tracked.2, q, s, current, index]
  exact ⟨q, fed, by simp [q, tracked.1, states], rfl, .wrapped rfl index current (by decide)⟩

/-- A single byte that is accepted, with a substate behind it. -/
theorem single_tracks (tracked : p.size = p.states.length ∧ p.overread = false)
    (states : p.states = past ++ ⟨.singleRead, some block, check, size, remaining⟩ :: rest)
    (table : PieceTable todo rest) (index : p.index = past.length)
    (current : p.current = .singleRead) (nonempty : block ≠ [])
    (accepted : runCheck check (written block [b]) 1 = none) (more : todo ≠ []) :
    ∃ p', parserFeed p b = .ok p' ∧ p'.Tracks (.before todo) := by
  have inside : ¬ p.size ≤ past.length := by simp [tracked.1, states]
  have behind : ¬ p.size ≤ past.length + 1 := by
    cases table <;> simp_all
  let s : ParserSubstate := ⟨.singleRead, some (written block [b]), check, size, remaining⟩
  let q : Parser := { p with states := past ++ s :: rest }
  have fed := parserFeed_single inside tracked.2 states index current nonempty b
  simp only [accepted, behind, decide_false] at fed
  have states' : q.states = past ++ [s] ++ rest := List.append_cons ..
  have moved := moveTo_tracks (by simp) states' table (by simp [q, tracked.1, states]) tracked.2
  rw [List.length_append, List.length_singleton] at moved
  have quiet : { q.moveTo (past.length + 1) with overread := false } = q.moveTo (past.length + 1) := by
    rw [← moved.overread]
  exact ⟨_, fed, quiet ▸ moved⟩

/-- A safe byte takes the parser where the stream comes to. -/
theorem parserFeed_tracks (tracks : p.Tracks r) (safe : r.Safe b) :
    ∃ p', parserFeed p b = .ok p' ∧ p'.Tracks (r.feed b) := by
  have tracked := And.intro tracks.size tracks.overread
  cases tracks.readTo with
  | @before past rest todo states _ table index current =>
    cases table with
    | nil => exact safe.elim
    | single nonempty table =>
      rw [Progress.feed, safe.1]
      exact single_tracks tracked states table index current nonempty safe.1 safe.2
    | @fixed size block check todo rest room table =>
      by_cases zero : size = 0
      · subst zero
        exact wrapped_tracks tracked states index current room b
      · have some' : 0 < size.toNat := Nat.pos_of_ne_zero fun h => zero (UInt8.toNat_inj.mp h)
        exact text_tracks tracked states table index current room (Nat.zero_add _) some' b
    | counted head long checked table =>
      rw [← checked]
      exact counted_tracks tracked states table long index (current.trans head) b
  | within states table index current room sum more =>
    exact text_tracks tracked states table index current room sum more b
  | wrapped => exact absurd rfl safe
  | rejected inside current =>
    have quiet : ¬ p.size ≤ p.index := by simpa [tracked.1] using inside
    refine ⟨p, ?_, tracks⟩
    simp only [parserFeed, current, quiet, decide_false, Bool.or_false]
    rw [← current]

/-- A byte that is answered as it should be was a safe one. -/
theorem parserFeed_safe (tracks : p.Tracks r) (fed : parserFeed p b = .ok p')
    (answers : p'.Answers p'.current (r.feed b)) : r.Safe b := by
  have tracked := And.intro tracks.size tracks.overread
  cases tracks.readTo with
  | @before past rest todo states _ table index current =>
    cases table with
    | nil =>
      -- the parser was done: the slot behind the last substate is loaded
      have behind : p.size ≤ p.index := by simp [tracked.1, states, index]
      have loaded : parserFeed p b = .ok { p with overread := true } := by
        have done : p.current = .doneRead := current
        simp only [parserFeed, done, behind, decide_true, Bool.or_true]
      obtain rfl := Except.ok.inj (loaded.symm.trans fed)
      exact absurd answers.1 (by simp)
    | @single block check size remaining todo rest nonempty table =>
      have inside : ¬ p.size ≤ past.length := by simp [tracked.1, states]
      have single := (parserFeed_single inside tracked.2 states index current nonempty b).symm.trans fed
      cases verdict : runCheck check (written block [b]) 1 with
      | none =>
        refine ⟨verdict, fun last => ?_⟩
        subst last
        cases table
        have behind : p.size ≤ past.length + 1 := by simp [tracked.1, states]
        rw [verdict] at single
        obtain rfl := Except.ok.inj single
        exact absurd answers.1 (by simp [behind])
      | some e =>
        -- `current` is still `single_read`
        rw [verdict] at single
        obtain rfl := Except.ok.inj single
        have refused : Progress.feed (.before (.single block check :: todo)) b = .rejected := by
          rw [Progress.feed, verdict]
        have error : p.current = .errorRead := answers.2.1.mpr refused
        rw [current] at error
        cases error
    | fixed => trivial
    | counted => trivial
  | within _ _ _ _ _ sum more =>
    intro zero
    subst zero
    simp at sum
    omega
  | @wrapped past rest todo remaining result block text check states index current more =>
    -- the byte would be stored before the block
    have here : p.states[p.index]? = some ⟨.longRead, result, check, 0, remaining⟩ := by
      simp [states, index]
    have before : ((0 : UInt8).toNat : Int) - remaining.toNat < 0 := by
      have : (0 : UInt8).toNat = 0 := rfl
      omega
    have fault : parserFeed p b = .error .outOfBounds := by
      simp only [parserFeed, current, here, if_pos before]
    rw [fault] at fed
    cases fed
  | rejected => trivial

theorem tracks_states (tracks : p.Tracks r) : ∃ first, p.states.head? = some first := by
  have nonempty : p.states ≠ [] := by
    cases tracks.readTo with
    | before _ nonempty => exact nonempty
    | within states => simp [states]
    | wrapped states => simp [states]
    | rejected inside => exact fun none => by simp [none] at inside
  exact ⟨_, List.head?_eq_some_head nonempty⟩

theorem bytes_follow_iff (tracks : p.Tracks r) :
    Follows parserFeed Progress.feed (fun _ r b q => q.Answers q.current (r.feed b)) p r bytes ↔
      Throughout Progress.feed Progress.Safe r bytes := by
  refine follows_iff (fun p r b tracks safe => ?_)
    (fun p r b p' tracks fed answers => parserFeed_safe tracks fed answers) tracks
  obtain ⟨p', fed, next⟩ := parserFeed_tracks tracks safe
  exact ⟨p', fed, tracks_answers next, next⟩

/-- `consume` takes the bytes of a buffer up to the end or a rejection. -/
theorem consume_tracks {buf : Buffer} (tracks : p.Tracks r) (safe : (ParserCall.buffer buf).Safe r) :
    ∃ buf' p' st, consume buf p =
        .ok (buf', p', st, bufferCanRead buf && decide (p'.current = .errorRead)) ∧
      (bufferCanRead buf → st = p'.current) ∧ p'.Tracks ((ParserCall.buffer buf).next r) := by
  have taken : ∃ p', feedUntil parserFeed (fun p => isDone p.current) p (bufferReadPtr buf) =
        .ok (p', (bufferReadPtr buf).drop ((ParserCall.buffer buf).bytes r).length) ∧
      p'.Tracks ((ParserCall.buffer buf).next r) :=
    feedUntil_tracks (fun _ _ _ tracks safe => parserFeed_tracks tracks safe)
      (fun _ _ tracks => tracks_halted tracks) tracks safe
  obtain ⟨p', fed, next⟩ := taken
  obtain ⟨buf', drained⟩ := drain_of_feedUntil (Nat.le_of_eq (bufferReadPtr_length buf)) fed
  obtain ⟨first, head⟩ := tracks_states tracks
  refine ⟨buf', p', if bufferCanRead buf then p'.current else first.state, ?_, fun unread => ?_, next⟩
  · unfold consume
    rw [head]
    simp [drained]
  · rw [if_pos unread]

theorem call_tracks {call : ParserCall} (tracks : p.Tracks r) (safe : call.Safe r) :
    ∃ p', call.run p = .ok p' ∧ call.Lawful p r p' ∧ p'.Tracks (call.next r) := by
  have follows := (bytes_follow_iff tracks).mpr safe
  cases call with
  | byte b =>
    obtain ⟨p', fed, next⟩ := parserFeed_tracks tracks safe.1
    exact ⟨p', fed, ⟨follows, trivial⟩, next⟩
  | buffer buf =>
    obtain ⟨buf', p', st, consumed, last, next⟩ := consume_tracks tracks safe
    refine ⟨p', ?_, ⟨follows, fun unread => ⟨buf', st, _, consumed, ?_, ?_⟩⟩, next⟩
    · rw [ParserCall.run, consumed, ok_bind]
    · rw [last unread]
      exact tracks_answers next
    · rw [unread, Bool.true_and, decide_eq_true_eq]
      exact (tracks_answers next).2.1

theorem call_safe {call : ParserCall} (tracks : p.Tracks r) (lawful : call.Lawful p r p') :
    call.Safe r :=
  (bytes_follow_iff tracks).mp lawful.1

theorem parserInit_tracks (describes : p.Describes pieces) (nonempty : pieces ≠ []) :
    ∃ q, parserInit p = .ok q ∧ q.Tracks (.before pieces) := by
  have table := describes.table
  have tracked := And.intro describes.size describes.overread
  cases states : p.states with
  | nil =>
    rw [states] at table
    cases table
    exact absurd rfl nonempty
  | cons first rest =>
    rw [states] at table
    refine ⟨{ p with current := first.state, index := 0, error := 0 }, by simp [parserInit, states],
      tracked.1, tracked.2, .before (List.nil_append _).symm ?_ (states ▸ table) rfl ?_⟩
    · simp [states]
    · simp [stateBefore, states]

/-- The laws hold of the calls on a description, whatever the checks are, exactly when
there is a substate and every byte that is fed is a safe one. -/
theorem engine_lawful_iff (describes : p.Describes pieces) (calls : List ParserCall) :
    p.Lawful pieces calls ↔
      pieces ≠ [] ∧ Throughout ParserCall.next ParserCall.Safe (.before pieces) calls := by
  have exact (q : Parser) (start : q.Tracks (.before pieces)) :
      Follows ParserCall.run ParserCall.next ParserCall.Lawful q (.before pieces) calls ↔
        Throughout ParserCall.next ParserCall.Safe (.before pieces) calls :=
    follows_iff (fun _ _ _ tracks safe => call_tracks tracks safe)
      (fun _ _ _ _ tracks _ lawful => call_safe tracks lawful) start
  constructor
  · rintro ⟨q, started, follows⟩
    have nonempty : pieces ≠ [] := by
      rintro rfl
      have table := describes.table
      cases states : p.states with
      | nil => simp [parserInit, states] at started
      | cons => rw [states] at table; cases table
    obtain ⟨q', started', start⟩ := parserInit_tracks describes nonempty
    obtain rfl : q' = q := Except.ok.inj (started'.symm.trans started)
    exact ⟨nonempty, (exact q' start).mp follows⟩
  · rintro ⟨nonempty, safe⟩
    obtain ⟨q, started, start⟩ := parserInit_tracks describes nonempty
    exact ⟨q, started, (exact q start).mpr safe⟩

/-! ## Descriptions of texts alone -/

def Piece.isText : Piece → Bool
  | .single _ _ => false
  | .fixed size _ _ => size ≠ 0
  | .counted _ => true

/-- What is left to read is texts that have a byte, or announce their bytes. -/
def Progress.Texts : Progress → Prop
  | .before todo => todo.all Piece.isText
  | .within size _ _ _ todo => size ≠ 0 ∧ todo.all Piece.isText
  | .rejected => True

theorem text_texts (some' : size ≠ 0) (texts : todo.all Piece.isText) :
    (Progress.text size block check text todo b).Texts := by
  unfold Progress.text
  split
  · split
    · exact texts
    · trivial
  · exact ⟨some', texts⟩

theorem feed_texts (texts : r.Texts) (b : UInt8) : (r.feed b).Texts := by
  cases r with
  | before todo =>
    cases todo with
    | nil => exact texts
    | cons piece todo =>
      obtain ⟨head, rest⟩ : piece.isText ∧ todo.all Piece.isText := by
        simpa [Progress.Texts] using texts
      cases piece with
      | single => cases head
      | fixed size block check => exact text_texts (by simpa [Piece.isText] using head) rest
      | counted check =>
        rw [Progress.feed]
        split
        · exact rest
        · rename_i zero
          exact ⟨fun h => zero (by simp [h]), rest⟩
  | within size block check text todo => exact text_texts texts.1 texts.2
  | rejected => trivial

theorem texts_safe (texts : r.Texts) (going : r.halted = false) (b : UInt8) : r.Safe b := by
  cases r with
  | before todo =>
    match todo with
    | [] => cases going
    | .single _ _ :: _ => simp [Progress.Texts, Piece.isText] at texts
    | .fixed _ _ _ :: _ => trivial
    | .counted _ :: _ => trivial
  | within => exact texts.1
  | rejected => trivial

/-- `consume` feeds such a description safe bytes alone, whatever its buffer holds. -/
theorem texts_consume_safe (texts : r.Texts) (going : r.halted = false) (buf : Buffer) :
    (ParserCall.buffer buf).Safe r := by
  show Throughout Progress.feed Progress.Safe r
    (takenUntil Progress.feed Progress.halted r (bufferReadPtr buf))
  generalize bufferReadPtr buf = bytes
  induction bytes generalizing r with
  | nil => trivial
  | cons b bytes ih =>
    rw [takenUntil]
    split
    · exact ⟨texts_safe texts going b, trivial⟩
    · rename_i more
      exact ⟨texts_safe texts going b, ih (feed_texts texts b) (Bool.eq_false_iff.mpr more)⟩

/-- A field of the tables that the server sets up. -/
def pieceOf : ParserField → Piece
  | .one check => .fixed 1 [0, 0] check
  | .counted => .counted none

theorem pieceTable_substates (fs : List ParserField) :
    PieceTable (fs.map pieceOf) (fs.flatMap substatesOf) := by
  induction fs with
  | nil => exact .nil
  | cons f fs ih =>
    cases f with
    | one check => exact .fixed (by decide) ih
    | counted => exact .counted rfl rfl rfl ih

/-- The laws hold of every table of the server, whatever buffer it is read from. -/
theorem server_table_lawful {fs : List ParserField} (states : p.states = fs.flatMap substatesOf)
    (size : p.size = p.states.length) (overread : p.overread = false) (nonempty : fs ≠ [])
    (buf : Buffer) : p.Lawful (fs.map pieceOf) [.buffer buf] := by
  have describes : p.Describes (fs.map pieceOf) :=
    ⟨states ▸ pieceTable_substates fs, size, overread⟩
  have texts : (Progress.before (fs.map pieceOf)).Texts := by
    show ((fs.map pieceOf).all Piece.isText) = true
    simp only [List.all_map, List.all_eq_true]
    intro f _
    cases f <;> rfl
  have going : (Progress.before (fs.map pieceOf)).halted = false := by
    cases fs with
    | nil => exact absurd rfl nonempty
    | cons => rfl
  obtain ⟨q, started, start⟩ := parserInit_tracks describes (by simp [nonempty])
  obtain ⟨p', ran, lawful, _⟩ := call_tracks start (texts_consume_safe texts going buf)
  exact ⟨q, started, p', ran, lawful, trivial⟩

/-! ## Where the laws fail -/

/-- A byte that must be 5, and a text of one byte behind it. -/
def onlyFive : List Piece :=
  [.single [0] (some fun v _ => if v.head? = some 5 then none else some 1), .fixed 1 [0, 0] none]

def onlyFiveParser : Parser where
  index := 0
  size := 2
  current := .singleRead
  states := [⟨.singleRead, some [0], some fun v _ => if v.head? = some 5 then none else some 1, 1, 1⟩,
    ⟨.longRead, some [0, 0], none, 1, 1⟩]
  error := 0
  overread := false

theorem onlyFive_describes : onlyFiveParser.Describes onlyFive :=
  ⟨.single (by simp) (.fixed (by decide) .nil), rfl, rfl⟩

/-- The check rejects the byte 4, and `parser_feed` answers `single_read`. -/
theorem engine_law_broken : onlyFiveParser.Describes onlyFive ∧
    ¬ onlyFiveParser.Lawful onlyFive [.byte 4] := by
  refine ⟨onlyFive_describes, ?_⟩
  rintro ⟨q, started, _, _, ⟨⟨p', fed, answers, _⟩, _⟩, _⟩
  obtain rfl := Except.ok.inj started
  obtain rfl := Except.ok.inj fed
  have error := answers.2.1.mpr rfl
  cases error

/-- The check accepts the byte 5, and the text is the byte behind it. -/
theorem engine_lawful_iff_five : onlyFiveParser.Lawful onlyFive [.byte 5, .byte 9] :=
  (engine_lawful_iff onlyFive_describes _).mpr
    ⟨by simp [onlyFive], ⟨⟨rfl, by simp⟩, trivial⟩, ⟨trivial, trivial⟩, trivial⟩

end

end SocksProxy
