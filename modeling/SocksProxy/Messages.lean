import SocksProxy.Chunks
import SocksProxy.Credentials

/-!
# The four messages of the generic parser

Whatever the stream and however it is cut, the parser of a table reads a message
of its fields to its values, refuses a wrong version in the first byte of the
username/password message, or waits for more.
-/

namespace SocksProxy

open Lib

/-- The tables of `auth_read_init` and of the three kinds of parameters. -/
inductive MessageTable
  | userpass
  | addUser
  | deleteUser
  | option
  deriving DecidableEq, Repr

namespace MessageTable

def substates : MessageTable → List ParserSubstate
  | userpass => authSubstates
  | addUser => addUserSubstates
  | deleteUser => deleteUserSubstates
  | option => yesNoSubstates

def fields : MessageTable → List ParserField
  | userpass => authFields
  | addUser => [.counted, .counted]
  | deleteUser => [.counted]
  | option => [.one none]

def first : MessageTable → ParserSubstate
  | userpass => oneByte (some checkVersion)
  | addUser | deleteUser => lengthByte
  | option => oneByte none

/-- The parser that the table is given to. -/
def parser (t : MessageTable) : Parser := parserOf t.substates t.first

/-- The stream starts with a message of the table, with these values. -/
def Begins (t : MessageTable) (vs : List (List UInt8)) (stream rest : List UInt8) : Prop :=
  ∃ bytes, Parsed t.fields vs bytes ∧ stream = bytes ++ rest

/-- The stream starts with a byte that `checkVersion` refuses. -/
def Refuses (t : MessageTable) (stream rest : List UInt8) : Prop :=
  t = userpass ∧ ∃ v, stream = v :: rest ∧ v ≠ 0x01

end MessageTable

/-- `consume`, with whether the state it returns ends the stage. -/
def parserConsumer : Consumer Parser := fun b p =>
  consume b p >>= fun r => .ok (r.1, r.2.1, isDone r.2.2.1)

section
variable {t : MessageTable} {fs : List ParserField} {vs : List (List UInt8)} {p : Parser}
  {r : FieldReader} {fed stream rest : List UInt8}

theorem table_fields (t : MessageTable) : t.fields.flatMap substatesOf = t.substates := by
  cases t <;> rfl

theorem table_first (t : MessageTable) : t.substates.head? = some t.first := by
  cases t <;> rfl

/-- Every malloc of a table that goes through leaves this parser. -/
theorem table_allocated {malloc : Nat → Bool} {cell : Owned ParserCell}
    (h : allocParser malloc t.substates = .ok cell) (ready : cellReady cell = true) :
    cell = .live (.ready t.parser) := by
  rcases allocParser_ok h with failed | ⟨first, head, made⟩
  · exact absurd ready (Bool.eq_false_iff.mp failed)
  · rw [table_first] at head
    obtain rfl := Option.some.inj head
    exact made

theorem table_traces (t : MessageTable) : Traces t.fields t.parser (.between [] t.fields) := by
  have head : (t.fields.flatMap substatesOf).head? = some t.first := by
    rw [table_fields]
    exact table_first t
  have start := traces_start head
  rw [table_fields] at start
  exact start

theorem parserConsumer_consumes (fs : List ParserField) :
    Consumes parserConsumer parserFeed (fun p => isDone p.current)
      (fun p => ∃ r, Traces fs p r) where
  loop b p := by
    rintro ⟨r, traces⟩ going unread
    have runs : r.stopped = false := by rwa [traces_stopped traces] at going
    have some' := bufferCanRead_iff.mpr unread
    obtain ⟨b', p', consumed, -, traces'⟩ := consume_traces traces runs some'
    obtain ⟨fed, limit, rewound, -, -⟩ := consume_ok consumed some'
    refine ⟨p', b', fed, ?_, ⟨_, traces'⟩, limit, rewound⟩
    rw [parserConsumer, consumed]
    rfl

/-- A reader at the end of its fields leaves their values in the substates. -/
theorem traces_ended (h : Traces fs p (.between vs [])) :
    p.current = .doneRead ∧ Kept fs vs p.states := by
  cases h with
  | between split kept states size index current =>
    rw [List.append_nil] at split
    rw [List.flatMap_nil, List.append_nil] at states
    rw [split, states]
    exact ⟨current, kept⟩

/-- Only the version of the username/password message is ever refused. -/
theorem spells_refused {read : List (List UInt8)} {check : Option Check} {todo : List ParserField}
    (h : Spells checkAccepts UInt8.toNat t.fields fed (.refused read check todo)) :
    t = .userpass ∧ ∃ v, fed = [v] ∧ v ≠ 0x01 := by
  cases t with
  | userpass => exact ⟨rfl, auth_refused h⟩
  | addUser =>
    cases h with
    | @refused past _ _ _ _ _ split =>
      match past, split with
      | [], split => cases (List.cons.inj split).1
      | [_], split => cases (List.cons.inj (List.cons.inj split).2).1
      | _ :: _ :: _, split => simp [MessageTable.fields] at split
  | deleteUser =>
    cases h with
    | @refused past _ _ _ _ _ split =>
      match past, split with
      | [], split => cases (List.cons.inj split).1
      | _ :: _, split => simp [MessageTable.fields] at split
  | option =>
    cases h with
    | @refused past _ _ _ _ _ split _ _ refused =>
      match past, split with
      | [], split =>
        obtain rfl := FieldKind.one.inj (List.cons.inj split).1
        cases refused
      | _ :: _, split => simp [MessageTable.fields] at split

/-- A reader stops at the end of a message or at a version that is refused. -/
theorem spells_stopped (h : Spells checkAccepts UInt8.toNat t.fields fed r)
    (stopped : r.stopped = true) :
    (∃ vs, Parsed t.fields vs fed) ∨ t = .userpass ∧ ∃ v, fed = [v] ∧ v ≠ 0x01 := by
  cases r with
  | between read todo =>
    cases h with
    | between split message =>
      cases todo with
      | nil =>
        rw [List.append_nil] at split
        exact Or.inl ⟨read, split ▸ message⟩
      | cons => cases stopped
  | within => cases stopped
  | refused => exact Or.inr (spells_refused h)

/-- The message comes whole, with a rest; its version is refused; or there is more to come. -/
theorem message_decoded (t : MessageTable) {b : Buffer} {chunks : List (List UInt8)}
    (rewound : b.Rewound) (arrives : Arrives b chunks) :
    ∃ b' p left, receive parserConsumer b t.parser chunks = .ok (b', p, isDone p.current, left) ∧
      left <:+ chunks ∧
      (∀ vs rest, t.Begins vs (bufferReadPtr b ++ chunks.flatten) rest →
        p.current = .doneRead ∧ Kept t.fields vs p.states ∧
          bufferReadPtr b' ++ left.flatten = rest) ∧
      (∀ rest, t.Refuses (bufferReadPtr b ++ chunks.flatten) rest →
        p.current = .errorRead ∧ bufferReadPtr b' ++ left.flatten = rest) ∧
      ((∀ vs rest, ¬ t.Begins vs (bufferReadPtr b ++ chunks.flatten) rest) →
        (∀ rest, ¬ t.Refuses (bufferReadPtr b ++ chunks.flatten) rest) →
        isDone p.current = false ∧ bufferReadPtr b' ++ left.flatten = []) := by
  have start := table_traces t
  have going : (Reader.between [] t.fields : FieldReader).stopped = false := by cases t <;> rfl
  have some' : t.fields ≠ [] := by cases t <;> simp [MessageTable.fields, authFields]
  obtain ⟨p, rest, b', left, fed, received, -, unread, suffix, waits⟩ :=
    receive_spec (parserConsumer_consumes t.fields) (s := t.parser) ⟨_, start⟩
      ((traces_stopped start).trans going) rewound arrives
  obtain ⟨p', fed', traces⟩ := traces_run start going (bufferReadPtr b ++ chunks.flatten)
  rw [fed] at fed'
  obtain ⟨rfl, rfl⟩ := Prod.mk.inj (Except.ok.inj fed')
  refine ⟨b', p, left, received, suffix, ?_, ?_, ?_⟩
  · rintro vs more ⟨bytes, message, whole⟩
    have runs : FieldReader.run _ (bufferReadPtr b ++ chunks.flatten) = _ :=
      (congrArg _ whole).trans (run_message message some' [] more)
    rw [runs] at traces unread
    obtain ⟨current, kept⟩ := traces_ended traces
    exact ⟨current, kept, unread⟩
  · rintro more ⟨rfl, v, whole, wrong⟩
    have refused : checkAccepts (some checkVersion) v = false :=
      Bool.eq_false_iff.mpr fun accepted => wrong ((checkVersion_accepts v).mp accepted)
    have runs : FieldReader.run (.between [] MessageTable.userpass.fields)
        (bufferReadPtr b ++ chunks.flatten) =
          (.refused [] (some checkVersion) [.counted, .counted], more) := by
      rw [whole]
      simp [FieldReader.run, Reader.run, Reader.feed, Reader.stopped, MessageTable.fields,
        authFields, refused]
    rw [runs] at traces unread
    cases traces with
    | refused current => exact ⟨current, unread⟩
  · intro noMessage noRefusal
    have stops := traces_stopped traces
    have before : Spells checkAccepts UInt8.toNat t.fields [] (.between [] t.fields) := spells_start
    obtain ⟨taken, split, spells, -⟩ := run_spells (bufferReadPtr b ++ chunks.flatten) before going
    rw [List.nil_append] at spells
    have waiting : isDone p.current = false := by
      rw [stops]
      apply Bool.eq_false_iff.mpr
      intro stopped
      rcases spells_stopped spells stopped with ⟨vs, message⟩ | ⟨userpass, v, first, wrong⟩
      · exact noMessage vs _ ⟨taken, message, split⟩
      · rw [first] at split
        exact noRefusal _ ⟨userpass, v, split, wrong⟩
    obtain ⟨none, drained⟩ := waits waiting
    rw [none, drained]
    exact ⟨waiting, rfl⟩

/-- The credentials `u:p` in two pieces, the second with a byte more. -/
theorem message_decoded_credentials : ∃ b' p left,
    receive parserConsumer (bufferInit 16 (List.replicate 16 0) rfl) MessageTable.userpass.parser
      [[1, 1], [117, 1, 112, 9]] = .ok (b', p, isDone p.current, left) ∧ p.current = .doneRead ∧
    Kept authFields [[1], [117], [112]] p.states ∧ bufferReadPtr b' ++ left.flatten = [9] := by
  have rewound : (bufferInit 16 (List.replicate 16 0) rfl).Rewound := fun _ => rfl
  have arrives : Arrives (bufferInit 16 (List.replicate 16 0) rfl) [[1, 1], [117, 1, 112, 9]] :=
    arrives_next rewound rfl (by decide)
  have message : Parsed authFields [[1], [117], [112]] [1, 1, 117, 1, 112] :=
    .one rfl (.counted (v := [117]) rfl (.counted (v := [112]) rfl .nil))
  obtain ⟨b', p, left, received, -, whole, -, -⟩ := message_decoded .userpass rewound arrives
  obtain ⟨current, kept, unread⟩ := whole [[1], [117], [112]] [9] ⟨_, message, rfl⟩
  exact ⟨b', p, left, received, current, kept, unread⟩

end

end SocksProxy
