import SocksProxy.Authentication
import SocksProxy.Lib.Fields

/-!
# What the generic parser reads

Every table of substates that the server sets up is a message of fields: a byte
with a check is one substate, a string with its length byte is two. On such a
table `parser_feed` never faults, and it does what the reader of the fields does.
-/

namespace SocksProxy

open Lib

def checkAccepts (check : Option Check) (b : UInt8) : Bool := (runCheck check [b, 0] 1).isNone

/-- The fields of a table. -/
abbrev ParserField := FieldKind (Option Check)

abbrev FieldReader := Reader (Option Check) UInt8

def substatesOf : ParserField → List ParserSubstate
  | .one check => [oneByte check]
  | .counted => [lengthByte, announced]

/-- A message of the parser. -/
abbrev Parsed (fs : List ParserField) (vs : List (List UInt8)) (bytes : List UInt8) : Prop :=
  Message checkAccepts UInt8.toNat fs vs bytes

def FieldReader.feed (r : FieldReader) (b : UInt8) : FieldReader :=
  Reader.feed checkAccepts UInt8.toNat r b

def FieldReader.run (r : FieldReader) (bytes : List UInt8) : FieldReader × List UInt8 :=
  Reader.run checkAccepts UInt8.toNat r bytes

/-- The substates of fields that were read hold the values, each with its NUL. -/
inductive Kept : List ParserField → List (List UInt8) → List ParserSubstate → Prop
  | nil : Kept [] [] []
  | one {check : Option Check} {s : ParserSubstate} {v : List UInt8} {fs : List ParserField}
      {vs : List (List UInt8)} {kept : List ParserSubstate} :
      s.result = some (v ++ [0]) → Kept fs vs kept → Kept (.one check :: fs) (v :: vs) (s :: kept)
  | counted {s length : ParserSubstate} {v : List UInt8} {fs : List ParserField}
      {vs : List (List UInt8)} {kept : List ParserSubstate} :
      s.result = some (v ++ [0]) → Kept fs vs kept →
        Kept (.counted :: fs) (v :: vs) (length :: s :: kept)

/-- The state a parser is in before a field. -/
def awaits : List ParserField → ParserState
  | [] => .doneRead
  | .one _ :: _ => .longRead
  | .counted :: _ => .readN

/-- The parser `p` of the fields `fs` is where the reader is. -/
inductive Traces (fs : List ParserField) (p : Parser) : FieldReader → Prop
  | between {past todo : List ParserField} {read : List (List UInt8)} {kept : List ParserSubstate} :
      fs = past ++ todo → Kept past read kept → p.states = kept ++ todo.flatMap substatesOf →
      p.size = p.states.length → p.index = kept.length → p.current = awaits todo →
      Traces fs p (.between read todo)
  | within {past todo : List ParserField} {read : List (List UInt8)} {kept : List ParserSubstate}
      {length : ParserSubstate} {block part : List UInt8} {size remaining : UInt8} {left : Nat} :
      fs = past ++ .counted :: todo → Kept past read kept →
      p.states = kept ++ length :: ⟨.longRead, some block, none, size, remaining⟩ ::
        todo.flatMap substatesOf →
      p.size = p.states.length → p.index = kept.length + 1 → p.current = .longRead →
      remaining.toNat = left → 0 < left → size.toNat = part.length + left →
      block.length = size.toNat + 1 → block.take part.length = part →
      Traces fs p (.within read left part todo)
  | refused {read : List (List UInt8)} {check : Option Check} {todo : List ParserField} :
      p.current = .errorRead → Traces fs p (.refused read check todo)

section
variable {fs past todo : List ParserField} {vs ws read : List (List UInt8)}
  {kept : List ParserSubstate} {p p' : Parser} {r : FieldReader} {bytes rest : List UInt8}

theorem Kept.append {gs : List ParserField} {more : List ParserSubstate} (h : Kept fs vs kept)
    (k : Kept gs ws more) : Kept (fs ++ gs) (vs ++ ws) (kept ++ more) := by
  induction h with
  | nil => exact k
  | one result _ ih => exact .one result ih
  | counted result _ ih => exact .counted result ih

theorem traces_stopped (h : Traces fs p r) : isDone p.current = r.stopped := by
  cases h with
  | @between past todo _ _ _ _ _ _ _ current =>
    rw [current]
    match todo with
    | [] => rfl
    | .one _ :: _ => rfl
    | .counted :: _ => rfl
  | within _ _ _ _ _ current =>
    rw [current]
    rfl
  | refused current =>
    rw [current]
    rfl

theorem set_middle {α : Type} (xs ys : List α) (x y : α) :
    (xs ++ x :: ys).set xs.length y = xs ++ y :: ys := by
  simp

/-- The substate after the fields that were read becomes current, if there is one. -/
theorem traces_moveTo (split : fs = past ++ todo) (done : Kept past read kept)
    (states : p.states = kept ++ todo.flatMap substatesOf) (size : p.size = p.states.length) :
    Traces fs (p.moveTo kept.length) (.between read todo) := by
  have length : p.states.length = kept.length + (todo.flatMap substatesOf).length := by
    rw [states, List.length_append]
  unfold Parser.moveTo
  match todo, split, states, length with
  | [], split, states, length =>
    have last : p.size ≤ kept.length := by
      rw [size, length]
      simp
    rw [if_pos last]
    exact .between split done states size rfl rfl
  | .one check :: todo, split, states, length =>
    have more : ¬ p.size ≤ kept.length := by
      rw [size, length]
      simp [substatesOf]
    have next : p.states[kept.length]? = some (oneByte check) := by
      rw [states]
      simp [substatesOf]
    rw [if_neg more, next]
    exact .between split done states size rfl rfl
  | .counted :: todo, split, states, length =>
    have more : ¬ p.size ≤ kept.length := by
      rw [size, length]
      simp [substatesOf]
    have next : p.states[kept.length]? = some lengthByte := by
      rw [states]
      simp [substatesOf]
    rw [if_neg more, next]
    exact .between split done states size rfl rfl

/-- The parser after a byte of a field, whose block is now `block`. -/
def Parser.stored (p : Parser) (s : ParserSubstate) (block : List UInt8) : Parser :=
  { p with
    states := p.states.set p.index { s with result := some block, remaining := s.remaining - 1 }
    overread := p.overread || decide (p.size ≤ p.index) }

/-- A byte of a field that is being read; the last one ends the field with a NUL. -/
theorem parserFeed_longRead {s : ParserSubstate} {block : List UInt8} (b : UInt8)
    (current : p.current = .longRead) (here : p.states[p.index]? = some s)
    (result : s.result = some block) (room : s.size.toNat < block.length)
    (some' : 0 < s.remaining.toNat) (within : s.remaining.toNat ≤ s.size.toNat) :
    parserFeed p b =
      let block' := block.set (s.size.toNat - s.remaining.toNat) b
      let ended := block'.set s.size.toNat 0
      if s.remaining.toNat = 1 then
        match runCheck s.checkFunction ended s.size with
        | some e => .ok { p.stored s ended with error := e, current := .errorRead }
        | none => .ok ((p.stored s ended).moveTo (p.index + 1))
      else .ok (p.stored s block') := by
  have start : ¬ (s.size.toNat : Int) - s.remaining.toNat < 0 := by omega
  have place : ((s.size.toNat : Int) - s.remaining.toNat).toNat =
      s.size.toNat - s.remaining.toNat := by omega
  have inside : s.size.toNat - s.remaining.toNat < block.length := by omega
  have ends : s.remaining - 1 ≤ 0 ↔ s.remaining.toNat = 1 := by
    rw [UInt8.le_iff_toNat_le, UInt8.toNat_sub_of_le _ _ (by rw [UInt8.le_iff_toNat_le]; exact some')]
    simp only [UInt8.toNat_one, UInt8.toNat_zero]
    omega
  by_cases last : s.remaining.toNat = 1
  · cases check : runCheck s.checkFunction
        ((block.set (s.size.toNat - s.remaining.toNat) b).set s.size.toNat 0) s.size <;>
      simp only [parserFeed, current, here, if_neg start, place, result, storeAt, inside, if_true,
        ok_bind, ends, if_pos last, List.length_set, room, check, Parser.setSubstate, Parser.stored]
  · simp only [parserFeed, current, here, if_neg start, place, result, storeAt, inside, if_true,
      ok_bind, ends, if_neg last, Parser.setSubstate, Parser.stored]

theorem traces_one {check : Option Check} (b : UInt8) (split : fs = past ++ .one check :: todo)
    (done : Kept past read kept) (states : p.states = kept ++ oneByte check :: todo.flatMap substatesOf)
    (size : p.size = p.states.length) (index : p.index = kept.length) (current : p.current = .longRead) :
    ∃ p', parserFeed p b = .ok p' ∧
      Traces fs p' (if checkAccepts check b then .between (read ++ [[b]]) todo
        else .refused read check todo) := by
  have here : p.states[p.index]? = some (oneByte check) := by
    rw [states, index]
    simp
  have ran : parserFeed p b = match runCheck check [b, 0] 1 with
      | some e => .ok { p.stored (oneByte check) [b, 0] with error := e, current := .errorRead }
      | none => .ok ((p.stored (oneByte check) [b, 0]).moveTo (p.index + 1)) :=
    parserFeed_longRead b current here rfl (Nat.lt_succ_self 1) Nat.one_pos (Nat.le_refl 1)
  unfold checkAccepts
  rw [ran]
  cases runCheck check [b, 0] 1 with
  | some e => exact ⟨_, rfl, .refused rfl⟩
  | none =>
    refine ⟨_, rfl, ?_⟩
    have split' : fs = past ++ [.one check] ++ todo := by rw [split, List.append_assoc]; rfl
    have states' : (p.stored (oneByte check) [b, 0]).states = kept ++ [{ oneByte check with
        result := some [b, 0], remaining := (oneByte check).remaining - 1 }] ++
          todo.flatMap substatesOf := by
      rw [Parser.stored, states, index, set_middle, List.append_assoc]
      rfl
    have size' : (p.stored (oneByte check) [b, 0]).size =
        (p.stored (oneByte check) [b, 0]).states.length := by simp [Parser.stored, size]
    have moved := traces_moveTo split' (done.append (.one (v := [b]) rfl .nil)) states' size'
    rwa [List.length_append, List.length_singleton, ← index] at moved

theorem traces_counted (b : UInt8) (split : fs = past ++ .counted :: todo) (done : Kept past read kept)
    (states : p.states = kept ++ lengthByte :: announced :: todo.flatMap substatesOf)
    (size : p.size = p.states.length) (index : p.index = kept.length) (current : p.current = .readN) :
    ∃ p', parserFeed p b = .ok p' ∧
      Traces fs p' (if b.toNat = 0 then .between (read ++ [[]]) todo
        else .within read b.toNat [] todo) := by
  have more : ¬ p.size ≤ p.index + 1 := by
    rw [size, states, index]
    simp
  have next : p.states[p.index + 1]? = some announced := by
    rw [states, index]
    simp
  have set (x : ParserSubstate) : p.states.set (p.index + 1) x =
      kept ++ lengthByte :: x :: todo.flatMap substatesOf := by
    have eq : kept ++ lengthByte :: announced :: todo.flatMap substatesOf =
        (kept ++ [lengthByte]) ++ announced :: todo.flatMap substatesOf := by simp
    have length : p.index + 1 = (kept ++ [lengthByte]).length := by simp [index]
    rw [states, eq, length, set_middle]
    simp
  by_cases zero : b.toNat = 0
  · have empty : b ≤ 0 := by
      rw [UInt8.le_iff_toNat_le, zero]
      exact Nat.zero_le _
    let last : ParserSubstate := { announced with remaining := b, size := b, result := some [0] }
    let fed : Parser := { p with
      states := kept ++ lengthByte :: last :: todo.flatMap substatesOf
      current := .readN
      overread := p.overread || decide (p.size ≤ p.index) }
    have ran : parserFeed p b = .ok (fed.moveTo (p.index + 1 + 1)) := by
      simp only [parserFeed, current, if_neg more, next, if_pos empty, Parser.setSubstate]
      rw [set]
    rw [if_pos zero]
    refine ⟨_, ran, ?_⟩
    have split' : fs = past ++ [.counted] ++ todo := by rw [split, List.append_assoc]; rfl
    have states' : fed.states = kept ++ [lengthByte, last] ++ todo.flatMap substatesOf := by simp [fed]
    have moved := traces_moveTo split' (done.append (.counted (v := []) rfl .nil)) states'
      (by simp [fed, size, states])
    have length : (kept ++ [lengthByte, last]).length = p.index + 1 + 1 := by simp [index]
    rwa [length] at moved
  · have some' : ¬ b ≤ 0 := by
      rw [UInt8.le_iff_toNat_le]
      exact fun le => zero (Nat.le_zero.mp le)
    rw [if_neg zero]
    refine ⟨{ p with
      states := kept ++ lengthByte :: ⟨.longRead, some (mallocBytes (b.toNat + 1)), none, b, b⟩ ::
        todo.flatMap substatesOf
      overread := p.overread || decide (p.size ≤ p.index)
      index := p.index + 1
      current := .longRead }, ?_, ?_⟩
    · simp only [parserFeed, current, if_neg more, next, if_neg some', Parser.setSubstate]
      rw [set]
      rfl
    · refine .within split done rfl ?_ ?_ rfl rfl (Nat.pos_of_ne_zero zero) ?_ ?_ rfl
      · rw [size, states]
        simp
      · rw [index]
      · simp
      · simp [mallocBytes]

theorem traces_string {length : ParserSubstate} {block part : List UInt8} {size remaining : UInt8}
    {left : Nat} (b : UInt8) (split : fs = past ++ .counted :: todo) (done : Kept past read kept)
    (states : p.states = kept ++ length :: ⟨.longRead, some block, none, size, remaining⟩ ::
      todo.flatMap substatesOf)
    (whole : p.size = p.states.length) (index : p.index = kept.length + 1)
    (current : p.current = .longRead) (remains : remaining.toNat = left) (some' : 0 < left)
    (sum : size.toNat = part.length + left) (long : block.length = size.toNat + 1)
    (stored : block.take part.length = part) :
    ∃ p', parserFeed p b = .ok p' ∧
      Traces fs p' (if left ≤ 1 then .between (read ++ [part ++ [b]]) todo
        else .within read (left - 1) (part ++ [b]) todo) := by
  let s : ParserSubstate := ⟨.longRead, some block, none, size, remaining⟩
  have here : p.states[p.index]? = some s := by
    rw [states, index]
    simp [s]
  have set (x : ParserSubstate) : p.states.set p.index x =
      kept ++ length :: x :: todo.flatMap substatesOf := by
    have eq : p.states = (kept ++ [length]) ++ s :: todo.flatMap substatesOf := by simp [states, s]
    have at' : p.index = (kept ++ [length]).length := by simp [index]
    rw [eq, at', set_middle]
    simp
  have place : size.toNat - left = part.length := by omega
  have room : part.length < block.length := by omega
  have begins : (block.set part.length b).take (part.length + 1) = part ++ [b] := by
    rw [List.take_set, List.take_succ_eq_append_getElem room, stored, set_middle]
  have ran : parserFeed p b =
      if left = 1 then
        .ok ((p.stored s ((block.set part.length b).set size.toNat 0)).moveTo (p.index + 1))
      else .ok (p.stored s (block.set part.length b)) := by
    have ran := parserFeed_longRead b current here rfl (long ▸ Nat.lt_succ_self _) (by change 0 < remaining.toNat; omega)
      (by change remaining.toNat ≤ size.toNat; omega)
    simp only [s, remains, place, runCheck] at ran
    exact ran
  by_cases last : left ≤ 1
  · obtain rfl : left = 1 := by omega
    rw [if_pos rfl] at ran
    rw [if_pos last]
    refine ⟨_, ran, ?_⟩
    have full : (block.set part.length b).set size.toNat 0 = part ++ [b] ++ [0] := by
      have cut := List.take_append_drop (part.length + 1) (block.set part.length b)
      have rest : ((block.set part.length b).drop (part.length + 1)).length = 1 := by
        rw [List.length_drop, List.length_set]
        omega
      obtain ⟨x, single⟩ := List.length_eq_one_iff.mp rest
      rw [begins, single] at cut
      have end' : size.toNat = (part ++ [b]).length := by simp [sum]
      rw [← cut, end', set_middle]
    have split' : fs = past ++ [.counted] ++ todo := by rw [split, List.append_assoc]; rfl
    have states' : (p.stored s (part ++ [b] ++ [0])).states =
        kept ++ [length, { s with
          result := some (part ++ [b] ++ [0]), remaining := remaining - 1 }] ++
            todo.flatMap substatesOf := by
      rw [Parser.stored, set, List.append_assoc kept]
      rfl
    have moved := traces_moveTo split' (done.append (.counted (v := part ++ [b]) rfl .nil)) states'
      (by simp [Parser.stored, whole])
    have at' : (kept ++ [length, { s with
        result := some (part ++ [b] ++ [0]), remaining := remaining - 1 }]).length = p.index + 1 := by
      simp [index]
    rw [at'] at moved
    rw [full]
    exact moved
  · have going : ¬ left = 1 := by omega
    rw [if_neg going] at ran
    rw [if_neg last]
    refine ⟨_, ran, ?_⟩
    have fewer : (remaining - 1).toNat = left - 1 := by
      have one : (1 : UInt8) ≤ remaining := by
        rw [UInt8.le_iff_toNat_le, remains]
        exact some'
      rw [UInt8.toNat_sub_of_le _ _ one, remains]
      rfl
    refine .within split done (by rw [Parser.stored, set]) (by simp [Parser.stored, whole]) index current
      fewer (by omega) ?_ ?_ ?_
    · change size.toNat = _
      rw [List.length_append, List.length_singleton]
      omega
    · rw [List.length_set]
      exact long
    · rw [List.length_append, List.length_singleton]
      exact begins

/-- A byte moves the parser as it moves the reader. -/
theorem traces_feed (h : Traces fs p r) (going : r.stopped = false) (b : UInt8) :
    ∃ p', parserFeed p b = .ok p' ∧ Traces fs p' (r.feed b) := by
  cases h with
  | @between past todo read kept split done states size index current =>
    match todo, split, states, current with
    | [], _, _, _ => cases going
    | .one check :: todo, split, states, current => exact traces_one b split done states size index current
    | .counted :: todo, split, states, current =>
      exact traces_counted b split done states size index current
  | within split done states size index current remains some' sum long stored =>
    exact traces_string b split done states size index current remains some' sum long stored
  | refused => cases going

/-- The parser takes a stream as the reader does, and leaves the same rest. -/
theorem traces_run (h : Traces fs p r) (going : r.stopped = false) (bytes : List UInt8) :
    ∃ p', feedUntil parserFeed (fun p => isDone p.current) p bytes = .ok (p', (r.run bytes).2) ∧
      Traces fs p' (r.run bytes).1 := by
  induction bytes generalizing p r with
  | nil => exact ⟨p, rfl, h⟩
  | cons b bytes ih =>
    obtain ⟨p', ran, traces⟩ := traces_feed h going b
    have stops := traces_stopped traces
    unfold FieldReader.run FieldReader.feed at *
    rw [Reader.run, feedUntil, ran, ok_bind, stops]
    by_cases ended : (Reader.feed checkAccepts UInt8.toNat r b).stopped = true
    · rw [if_pos ended, if_pos ended]
      exact ⟨p', rfl, traces⟩
    · rw [if_neg ended, if_neg ended]
      exact ih traces (Bool.eq_false_iff.mpr ended)

/-- `parser_init` puts the parser before the first field. -/
theorem traces_start {first : ParserSubstate} (head : (fs.flatMap substatesOf).head? = some first) :
    Traces fs (parserOf (fs.flatMap substatesOf) first) (.between [] fs) := by
  refine .between rfl .nil rfl rfl rfl ?_
  match fs, head with
  | .one _ :: _, head =>
    obtain rfl := Option.some.inj head
    rfl
  | .counted :: _, head =>
    obtain rfl := Option.some.inj head
    rfl

theorem traces_states (h : Traces fs p r) (going : r.stopped = false) : p.states ≠ [] := by
  cases h with
  | @between past todo _ _ _ _ states =>
    rw [states]
    match todo with
    | [] => cases going
    | .one _ :: _ => simp [substatesOf]
    | .counted :: _ => simp [substatesOf]
  | within _ _ states =>
    rw [states]
    simp
  | refused => cases going

/-- What `consume` does with a buffer that has something to read. -/
theorem consume_traces {b : Buffer} (h : Traces fs p r) (going : r.stopped = false)
    (unread : bufferCanRead b = true) :
    ∃ b' p', consume b p = .ok (b', p', p'.current, decide (p'.current = .errorRead)) ∧
      bufferReadPtr b' = (r.run (bufferReadPtr b)).2 ∧ Traces fs p' (r.run (bufferReadPtr b)).1 := by
  obtain ⟨p', fed, traces⟩ := traces_run h going (bufferReadPtr b)
  obtain ⟨b', drained⟩ := drain_of_feedUntil (Nat.le_of_eq (bufferReadPtr_length b)) fed
  obtain ⟨first, rest, states⟩ := List.exists_cons_of_ne_nil (traces_states h going)
  have consumed : consume b p = .ok (b', p', p'.current, decide (p'.current = .errorRead)) := by
    unfold consume
    rw [states, List.head?_cons]
    simp [drained, unread]
  have left := (consume_ok consumed unread).1
  rw [fed] at left
  exact ⟨b', p', consumed, (Prod.mk.inj (Except.ok.inj left)).2.symm, traces⟩

/-- What `consume` left, as the fields of what the parser was fed. -/
theorem consume_spells {b b' : Buffer} {fed : List UInt8} {st : ParserState} {error : Bool}
    (h : Traces fs p r) (going : r.stopped = false)
    (spells : Spells checkAccepts UInt8.toNat fs fed r) (unread : bufferCanRead b = true)
    (consumed : consume b p = .ok (b', p', st, error)) :
    ∃ (r' : FieldReader) (more : List UInt8), Traces fs p' r' ∧
      Spells checkAccepts UInt8.toNat fs (fed ++ more) r' ∧
      bufferReadPtr b = more ++ bufferReadPtr b' ∧ st = p'.current ∧ isDone st = r'.stopped ∧
      error = decide (st = .errorRead) ∧ (r'.stopped = false → bufferReadPtr b' = []) := by
  obtain ⟨b'', p'', consumed', left, traces⟩ := consume_traces h going unread
  rw [consumed', Except.ok.injEq, Prod.mk.injEq, Prod.mk.injEq, Prod.mk.injEq] at consumed
  obtain ⟨rfl, rfl, rfl, rfl⟩ := consumed
  obtain ⟨more, split, spelled, rest⟩ := run_spells (bufferReadPtr b) spells going
  refine ⟨_, more, traces, spelled, ?_, rfl, traces_stopped traces, rfl, fun runs => ?_⟩
  · rw [left]
    exact split
  · rw [left]
    exact rest runs

end

end SocksProxy
