import SocksProxy.Client
import SocksProxy.Credentials

/-!
# What the server makes of a request

The client builds a message with running offsets into a fixed array; the server's
parsers take it back apart, however it is cut on the way. The array of
`send_credentials` is three bytes too small for the longest credentials.
-/

namespace SocksProxy.Client

open Lib

/-- A read buffer with these unread bytes. -/
structure Holds (b : Buffer) (unread : List UInt8) : Prop where
  limit : b.limit = rawBuffSize
  rewound : b.Rewound
  unread : bufferReadPtr b = unread

/-- The parser of a stage on what its buffer holds, and then on what is received, one
chunk after another, until it is done. -/
def consumeChunks (b : Buffer) (p : Parser) :
    List (List UInt8) → Result (Buffer × Parser × List (List UInt8))
  | [] => do
    let r ← consume b p
    .ok (r.1, r.2.1, [])
  | chunk :: rest => do
    let r ← consume b p
    if isDone r.2.2.1 then .ok (r.1, r.2.1, chunk :: rest)
    else consumeChunks (bufferFill r.1 chunk) r.2.1 rest

/-- However the bytes come, the parser is done when they are there, with these strings in
its substates, and what comes after them is left spare. -/
def Parses (states : List ParserSubstate) (bytes : List UInt8) (results : List (Nat × List UInt8)) :
    Prop :=
  ∀ b first piece chunks more, Holds b piece → states.head? = some first → piece ≠ [] →
    (∀ chunk ∈ chunks, chunk ≠ [] ∧ chunk.length ≤ rawBuffSize) →
    piece ++ chunks.flatten = bytes ++ more →
    ∃ b' p piece' chunks', consumeChunks b (parserOf states first) chunks = .ok (b', p, chunks') ∧
      p.current = .doneRead ∧ Holds b' piece' ∧ piece' ++ chunks'.flatten = more ∧
      ∀ r ∈ results, p.resultAt r.1 = .ok (some (r.2 ++ [0]))

section
variable {buffer buffer' before bytes rest : List UInt8} {i n : Nat} {fs : List ParserField}
  {vs : List (List UInt8)} {r : FieldReader} {p : Parser} {b : Buffer} {chunks : List (List UInt8)}

/-! ## Building a message -/

/-- The array begins with the bytes. -/
def Begins (buffer : List UInt8) (n : Nat) (bytes : List UInt8) : Prop :=
  buffer.length = n ∧ buffer.take bytes.length = bytes

theorem put_begins (bytes : List UInt8) (begins : Begins buffer n before) (room : before.length + bytes.length ≤ n)
    (place : i = before.length) :
    ∃ buffer', put buffer i bytes = .ok buffer' ∧ Begins buffer' n (before ++ bytes) := by
  obtain ⟨length, start⟩ := begins
  subst place
  refine ⟨_, if_pos (by omega), ?_, ?_⟩
  · simp only [List.length_append, List.length_take, List.length_drop]
    omega
  · rw [start, ← List.length_append, List.take_left]

theorem begins_start (n : Nat) : Begins (mallocBytes n) n [] := ⟨List.length_replicate, rfl⟩

theorem Begins.shorter (begins : Begins buffer n (before ++ rest)) : Begins buffer n before := by
  obtain ⟨length, start⟩ := begins
  refine ⟨length, ?_⟩
  have cut := congrArg (List.take before.length) start
  rw [List.take_take, List.take_left] at cut
  rwa [List.length_append, Nat.min_eq_left (Nat.le_add_right _ _)] at cut

theorem strcpy_begins (bytes : List UInt8) (begins : Begins buffer n before) (room : before.length + bytes.length < n)
    (place : i = before.length) :
    ∃ buffer', strcpy buffer i bytes = .ok buffer' ∧ Begins buffer' n (before ++ bytes) := by
  obtain ⟨buffer', stored, begins⟩ := put_begins (bytes ++ [0]) begins
    (by rw [List.length_append, List.length_singleton]; omega) place
  rw [← List.append_assoc] at begins
  exact ⟨buffer', stored, begins.shorter⟩

theorem put_full (length : buffer.length = n) (full : n < i + bytes.length) :
    put buffer i bytes = .error .outOfBounds := by
  unfold put
  rw [if_neg (by omega)]

theorem put_length (h : put buffer i bytes = .ok buffer') : buffer'.length = buffer.length := by
  unfold put at h
  split at h
  · cases h
    simp only [List.length_append, List.length_take, List.length_drop]
    omega
  · cases h

/-- A string with its length byte. -/
def counted (s : List UInt8) : List UInt8 := UInt8.ofNat s.length :: s

/-- The two strings of a message are written after what is there. -/
theorem two_begin (username password : List UInt8) (begins : Begins buffer n before)
    (room : before.length + username.length + password.length + 2 < n) :
    ∃ b₁ b₂ b₃ b₄, put buffer before.length [UInt8.ofNat username.length] = .ok b₁ ∧
      strcpy b₁ (before.length + 1) username = .ok b₂ ∧
      put b₂ (before.length + 1 + username.length) [UInt8.ofNat password.length] = .ok b₃ ∧
      strcpy b₃ (before.length + 2 + username.length) password = .ok b₄ ∧
      Begins b₄ n (before ++ counted username ++ counted password) := by
  obtain ⟨b₁, first, g₁⟩ := put_begins [UInt8.ofNat username.length] begins
    (by rw [List.length_singleton]; omega) rfl
  obtain ⟨b₂, second, g₂⟩ := strcpy_begins username (i := before.length + 1) g₁
    (by simp only [List.length_append, List.length_singleton]; omega) (by simp)
  obtain ⟨b₃, third, g₃⟩ := put_begins [UInt8.ofNat password.length]
    (i := before.length + 1 + username.length) g₂
    (by simp only [List.length_append, List.length_singleton]; omega)
    (by simp only [List.length_append, List.length_singleton])
  obtain ⟨b₄, fourth, g₄⟩ := strcpy_begins password
    (i := before.length + 2 + username.length) g₃
    (by simp only [List.length_append, List.length_singleton]; omega)
    (by simp only [List.length_append, List.length_singleton]; omega)
  refine ⟨b₁, b₂, b₃, b₄, first, second, third, fourth, ?_⟩
  have same : before ++ counted username ++ counted password =
      before ++ [UInt8.ofNat username.length] ++ username ++ [UInt8.ofNat password.length] ++
        password := by
    simp [counted]
  rwa [same]

/-- The array takes the message and one byte more, for the last NUL. -/
theorem sendCredentials_ok {username password : List UInt8}
    (room : username.length + password.length ≤ 506) :
    sendCredentials username password = .ok (0x01 :: (counted username ++ counted password)) := by
  obtain ⟨b₀, start, g₀⟩ := put_begins [0x01] (begins_start 510) (by decide) rfl
  obtain ⟨b₁, b₂, b₃, b₄, first, second, third, fourth, begins⟩ :=
    two_begin username password g₀ (by
      change 1 + username.length + password.length + 2 < 510
      omega)
  change put b₀ 1 _ = _ at first
  change strcpy b₁ 2 _ = _ at second
  change put b₂ (2 + username.length) _ = _ at third
  change strcpy b₃ (3 + username.length) _ = _ at fourth
  have length : username.length + password.length + 3 =
      ([0x01] ++ counted username ++ counted password).length := by
    simp only [counted, List.length_append, List.length_cons, List.length_nil]
    omega
  change put _ 0 _ = _ at start
  simp only [sendCredentials, start, first, second, third, fourth, ok_bind, length]
  exact congrArg Except.ok begins.2

theorem sendCredentials_full {username password : List UInt8}
    (full : 506 < username.length + password.length) :
    ∀ sent, sendCredentials username password ≠ .ok sent := by
  intro sent h
  unfold sendCredentials at h
  obtain ⟨b₀, start, h⟩ := bind_eq_ok.mp h
  obtain ⟨b₁, first, h⟩ := bind_eq_ok.mp h
  obtain ⟨b₂, second, h⟩ := bind_eq_ok.mp h
  obtain ⟨b₃, third, h⟩ := bind_eq_ok.mp h
  obtain ⟨b₄, fourth, -⟩ := bind_eq_ok.mp h
  have length : b₃.length = 510 := by
    rw [put_length third, put_length second, put_length first, put_length start]
    exact List.length_replicate
  have past : strcpy b₃ (3 + username.length) password = .error .outOfBounds :=
    put_full length (by rw [List.length_append, List.length_singleton]; omega)
  rw [past] at fourth
  cases fourth

/-! ## The tokens of a request -/

theorem scanToken_ok {token : List UInt8} (short : token.length ≤ 254) :
    scanToken 255 token = .ok (chars token) := if_pos (by omega)

theorem chars_length (token : List UInt8) : (chars token).length ≤ token.length :=
  (List.takeWhile_sublist _).length_le

theorem sendRequest_addUser {typed : Typed} (index : typed.index = 10)
    (short : typed.username.length ≤ 254) (short' : typed.password.length ≤ 254) :
    sendRequest typed = .ok (some
      (0x0A :: (counted (chars typed.username) ++ counted (chars typed.password)))) := by
  have few := chars_length typed.username
  have few' := chars_length typed.password
  obtain ⟨b₀, start, g₀⟩ := put_begins [0x0A] (begins_start 512) (by decide) rfl
  obtain ⟨b₁, b₂, b₃, b₄, first, second, third, fourth, begins⟩ :=
    two_begin (chars typed.username) (chars typed.password) g₀ (by
      change 1 + (chars typed.username).length + (chars typed.password).length + 2 < 512
      omega)
  change put b₀ 1 _ = _ at first
  change strcpy b₁ 2 _ = _ at second
  change put b₂ (2 + (chars typed.username).length) _ = _ at third
  change strcpy b₃ (3 + (chars typed.username).length) _ = _ at fourth
  change put _ 0 _ = _ at start
  rw [Nat.add_comm] at third fourth
  have length : (chars typed.username).length + (chars typed.password).length + 3 =
      ([0x0A] ++ counted (chars typed.username) ++ counted (chars typed.password)).length := by
    simp only [counted, List.length_append, List.length_cons, List.length_nil]
    omega
  simp only [sendRequest, index, start, ok_bind, addUser, scanToken_ok short, scanToken_ok short',
    first, second, third, fourth, length]
  exact congrArg (fun sent => Except.ok (some sent)) begins.2

theorem sendRequest_deleteUser {typed : Typed} (index : typed.index = 11)
    (short : typed.username.length ≤ 254) :
    sendRequest typed = .ok (some (0x0B :: counted (chars typed.username))) := by
  have few := chars_length typed.username
  obtain ⟨b₀, start, g₀⟩ := put_begins [0x0B] (begins_start 512) (by decide) rfl
  obtain ⟨b₁, first, g₁⟩ := put_begins (i := 1)
    [UInt8.ofNat (chars typed.username).length] g₀ (by simp) rfl
  obtain ⟨b₂, second, g₂⟩ := strcpy_begins (i := 2) (chars typed.username) g₁ (by
    change 2 + _ < 512
    omega) rfl
  change put _ 0 _ = _ at start
  have length : (chars typed.username).length + 2 =
      ([] ++ [0x0B] ++ [UInt8.ofNat (chars typed.username).length] ++ chars typed.username).length := by
    simp only [List.length_append, List.length_cons, List.length_nil]
    omega
  simp only [sendRequest, index, start, ok_bind, deleteUser, scanToken_ok short, first, second, length]
  exact congrArg (fun sent => Except.ok (some sent)) g₂.2

/-! ## Taking a message apart -/

theorem holds_fill {chunk : List UInt8} (holds : Holds b []) (fits : chunk.length ≤ rawBuffSize) :
    Holds (bufferFill b chunk) chunk := by
  have room : chunk.length ≤ bufferWritePtr b := by
    rw [(holds.rewound.room holds.unread).2.2, holds.limit]
    exact fits
  refine ⟨(bufferFill_limit b chunk).trans holds.limit, bufferFill_rewound holds.rewound, ?_⟩
  rw [bufferFill_readPtr room, holds.unread]
  rfl

theorem consume_holds {piece : List UInt8} (traces : Traces fs p r) (going : r.stopped = false)
    (holds : Holds b piece) (some' : piece ≠ []) :
    ∃ b' p', consume b p = .ok (b', p', p'.current, decide (p'.current = .errorRead)) ∧
      Holds b' (r.run piece).2 ∧ Traces fs p' (r.run piece).1 := by
  have unread : bufferCanRead b = true := by
    rw [bufferCanRead_iff, holds.unread]
    exact some'
  obtain ⟨b', p', consumed, left, traces'⟩ := consume_traces traces going unread
  obtain ⟨-, limit, rewound, -⟩ := consume_ok consumed unread
  rw [holds.unread] at left traces'
  exact ⟨b', p', consumed, ⟨limit.trans holds.limit, rewound holds.rewound, left⟩, traces'⟩

/-- However a stream is cut, the parser takes it as the reader of its fields does. -/
theorem consumeChunks_traces {piece more : List UInt8} (traces : Traces fs p r)
    (going : r.stopped = false) (holds : Holds b piece) (some' : piece ≠ [])
    (chunked : ∀ chunk ∈ chunks, chunk ≠ [] ∧ chunk.length ≤ rawBuffSize)
    (runs : r.run (piece ++ chunks.flatten) = (.between vs [], more)) :
    ∃ b' p' piece' chunks', consumeChunks b p chunks = .ok (b', p', chunks') ∧
      Traces fs p' (.between vs []) ∧ Holds b' piece' ∧ piece' ++ chunks'.flatten = more := by
  induction chunks generalizing b p r piece with
  | nil =>
    obtain ⟨b₁, p₁, consumed, holds₁, traces₁⟩ := consume_holds traces going holds some'
    rw [List.flatten_nil, List.append_nil] at runs
    rw [runs] at holds₁ traces₁
    refine ⟨b₁, p₁, more, [], ?_, traces₁, holds₁, List.append_nil more⟩
    simp only [consumeChunks, consumed, ok_bind]
  | cons chunk rest ih =>
    obtain ⟨b₁, p₁, consumed, holds₁, traces₁⟩ := consume_holds traces going holds some'
    have done := traces_stopped traces₁
    by_cases stops : (r.run piece).1.stopped = true
    · have whole : r.run (piece ++ (chunk :: rest).flatten) = _ := run_stops_append stops going
      obtain ⟨last, spare⟩ := Prod.mk.inj (whole.symm.trans runs)
      refine ⟨b₁, p₁, _, chunk :: rest, ?_, last ▸ traces₁, holds₁, spare⟩
      simp only [consumeChunks, consumed, ok_bind, done, stops, if_true]
    · have runs₁ := Bool.eq_false_iff.mpr stops
      have onward : r.run (piece ++ (chunk :: rest).flatten) = _ := run_append going runs₁
      have nothing : (r.run piece).2 = [] := run_going_rest runs₁
      rw [nothing] at holds₁
      obtain ⟨nonempty, fits⟩ := chunked chunk List.mem_cons_self
      obtain ⟨b', p', piece', chunks', ran, traced, held, spare⟩ :=
        ih traces₁ runs₁ (holds_fill holds₁ fits) nonempty
          (fun c member => chunked c (List.mem_cons_of_mem _ member)) (onward.symm.trans runs)
      refine ⟨b', p', piece', chunks', ?_, traced, held, spare⟩
      simp only [consumeChunks, consumed, ok_bind, done, stops, if_false, Bool.false_eq_true]
      exact ran

/-- The strings of a message are in the substates that take them. -/
def valuesAt : List ParserField → List (List UInt8) → Nat → List (Nat × List UInt8)
  | .one _ :: fs, v :: vs, i => (i, v) :: valuesAt fs vs (i + 1)
  | .counted :: fs, v :: vs, i => (i + 1, v) :: valuesAt fs vs (i + 2)
  | _, _, _ => []

theorem kept_resultAt (before : List ParserSubstate) {kept : List ParserSubstate} (done : Kept fs vs kept)
    (states : p.states = before ++ kept) :
    ∀ x ∈ valuesAt fs vs before.length, p.resultAt x.1 = .ok (some (x.2 ++ [0])) := by
  induction done generalizing before with
  | nil => exact fun _ member => nomatch member
  | @one check s v fs vs kept result _ ih =>
    intro x member
    have onward := ih (before ++ [s]) (by rw [states, List.append_assoc]; rfl)
    rw [List.length_append, List.length_singleton] at onward
    cases member with
    | head => simp [Parser.resultAt, states, result]
    | tail _ member => exact onward x member
  | @counted s length v fs vs kept result _ ih =>
    intro x member
    have onward := ih (before ++ [length, s]) (by rw [states, List.append_assoc]; rfl)
    rw [List.length_append, List.length_cons, List.length_singleton] at onward
    cases member with
    | head => simp [Parser.resultAt, states, result]
    | tail _ member => exact onward x member

/-- A message of the fields is parsed to its values. -/
theorem message_parses (message : Parsed fs vs bytes) (some' : fs ≠ []) :
    Parses (fs.flatMap substatesOf) bytes (valuesAt fs vs 0) := by
  intro b first piece chunks more holds head nonempty chunked whole
  have runs := run_message message some' [] more
  rw [← whole] at runs
  have going : (Reader.between [] fs : FieldReader).stopped = false := by
    cases fs with
    | nil => exact absurd rfl some'
    | cons => rfl
  obtain ⟨b', p, piece', chunks', ran, traces, held, spare⟩ :=
    consumeChunks_traces (traces_start head) going holds nonempty chunked runs
  cases traces with
  | @between past _ _ kept split done states size index current =>
    rw [List.append_nil] at split
    rw [List.flatMap_nil, List.append_nil] at states
    subst split
    exact ⟨b', p, piece', chunks', ran, current, held, spare,
      kept_resultAt [] done states⟩

theorem counted_message {s : List UInt8} (short : s.length ≤ 255)
    (message : Parsed fs vs bytes) : Parsed (.counted :: fs) (s :: vs) (counted s ++ bytes) :=
  .counted (UInt8.toNat_ofNat_of_lt (by change s.length < 256; omega)) message

theorem authSubstates_parse {username password : List UInt8} (short : username.length ≤ 255)
    (short' : password.length ≤ 255) :
    Parses authSubstates (0x01 :: (counted username ++ counted password))
      [(0, [0x01]), (2, username), (4, password)] := by
  have strings := counted_message short (counted_message short' .nil)
  rw [List.append_nil] at strings
  have message : Parsed authFields [[0x01], username, password]
      (0x01 :: (counted username ++ counted password)) :=
    .one ((checkVersion_accepts 0x01).mpr rfl) strings
  exact message_parses message (by decide)

theorem counted_length (s : List UInt8) : (counted s).length = s.length + 1 := rfl

theorem addUserSubstates_parse (username password : List UInt8) (short : username.length ≤ 255)
    (short' : password.length ≤ 255) :
    Parses addUserSubstates (counted username ++ counted password)
      [(1, username), (3, password)] := by
  have strings := counted_message short (counted_message short' .nil)
  rw [List.append_nil] at strings
  exact message_parses strings (by decide)

theorem deleteUserSubstates_parse (username : List UInt8) (short : username.length ≤ 255) :
    Parses deleteUserSubstates (counted username) [(1, username)] := by
  have string := counted_message short .nil
  rw [List.append_nil] at string
  exact message_parses string (by decide)

theorem indexSubstates_parse {index : UInt8} (known : checkAccepts (some checkIndex) index = true) :
    Parses indexSubstates [index] [(0, [index])] := by
  have message : Parsed [.one (some checkIndex)] [[index]] [index] := .one known .nil
  exact message_parses message (by decide)

/-- The parser takes bytes to one value only. -/
theorem parses_unique {states : List ParserSubstate} {first : ParserSubstate}
    {results results' : List (Nat × List UInt8)} (parses : Parses states bytes results)
    (parses' : Parses states bytes results') (head : states.head? = some first) (some' : bytes ≠ [])
    (fits : bytes.length ≤ rawBuffSize) {i : Nat} {v w : List UInt8} (left : (i, v) ∈ results)
    (right : (i, w) ∈ results') : v = w := by
  have start : Holds freshBuffer [] := ⟨rfl, fun _ => rfl, rfl⟩
  have whole : bytes ++ ([] : List (List UInt8)).flatten = bytes ++ [] := rfl
  obtain ⟨b, p, _, _, ran, -, -, -, stored⟩ := parses _ first bytes [] [] (holds_fill start fits)
    head some' (fun _ member => nomatch member) whole
  obtain ⟨b', p', _, _, ran', -, -, -, stored'⟩ := parses' _ first bytes [] []
    (holds_fill start fits) head some' (fun _ member => nomatch member) whole
  obtain ⟨-, parser⟩ := Prod.mk.inj (Except.ok.inj (ran.symm.trans ran'))
  obtain ⟨rfl, -⟩ := Prod.mk.inj parser
  have same := (stored (i, v) left).symm.trans (stored' (i, w) right)
  exact List.append_cancel_right (Option.some.inj (Except.ok.inj same))

/-! ## There and back -/

/-- `send_credentials` stays in its array, and the server reads this pair. -/
def CredentialsArrive (username password : List UInt8) : Prop :=
  ∃ sent, sendCredentials username password = .ok sent ∧
    Parses authSubstates sent [(2, username), (4, password)]

/-- `send_request` stays in its array, and the server reads the index, and then these
strings with the parser of the index. -/
def RequestArrives (typed : Typed) (index : MngRequestIndex) (strings : List (Nat × List UInt8)) :
    Prop :=
  ∃ first rest states, sendRequest typed = .ok (some (first :: rest)) ∧
    Parses indexSubstates [first] [(0, [first])] ∧ mngIndexOf first = some index ∧
    typed.index = first.toNat ∧ mngRequestSubstates index = some states ∧
    Parses states rest strings

theorem credentials_arrive_iff {username password : List UInt8} (short : username.length ≤ 255)
    (short' : password.length ≤ 255) :
    CredentialsArrive username password ↔ username.length + password.length ≤ 506 := by
  constructor
  · rintro ⟨sent, built, -⟩
    by_contra full
    exact sendCredentials_full (by omega) sent built
  · intro room
    refine ⟨_, sendCredentials_ok room, fun b first piece chunks more holds head some' chunked whole => ?_⟩
    obtain ⟨b', p, piece', chunks', ran, current, held, spare, results⟩ :=
      authSubstates_parse short short' b first piece chunks more holds head some' chunked whole
    exact ⟨b', p, piece', chunks', ran, current, held, spare,
      fun r member => results r (List.mem_cons_of_mem _ member)⟩

theorem addUser_arrives_iff {typed : Typed} (index : typed.index = 10)
    (short : typed.username.length ≤ 254) (short' : typed.password.length ≤ 254) :
    RequestArrives typed .addUser [(1, typed.username), (3, typed.password)] ↔
      0 ∉ typed.username ∧ 0 ∉ typed.password := by
  have few := chars_length typed.username
  have few' := chars_length typed.password
  have built := sendRequest_addUser index short short'
  have parses := addUserSubstates_parse (chars typed.username) (chars typed.password) (by omega)
    (by omega)
  rw [← chars_of_plain, ← chars_of_plain]
  constructor
  · rintro ⟨first, rest, states, sent, -, -, -, table, parses'⟩
    obtain ⟨rfl, rfl⟩ : first = 0x0A ∧ rest = _ := by simpa using sent.symm.trans built
    obtain rfl : states = addUserSubstates := (Option.some.inj table).symm
    have fits : (counted (chars typed.username) ++ counted (chars typed.password)).length ≤
        rawBuffSize := by
      rw [List.length_append, counted_length, counted_length]
      change _ ≤ 2048
      omega
    constructor
    · exact parses_unique parses parses' rfl (by simp [counted]) fits
        List.mem_cons_self List.mem_cons_self
    · exact parses_unique parses parses' rfl (by simp [counted]) fits
        (List.mem_cons_of_mem _ List.mem_cons_self) (List.mem_cons_of_mem _ List.mem_cons_self)
  · rintro ⟨plain, plain'⟩
    rw [plain, plain'] at built parses
    exact ⟨_, _, _, built, indexSubstates_parse rfl, rfl, index, rfl, parses⟩

theorem deleteUser_arrives_iff {typed : Typed} (index : typed.index = 11)
    (short : typed.username.length ≤ 254) :
    RequestArrives typed .deleteUser [(1, typed.username)] ↔ 0 ∉ typed.username := by
  have few := chars_length typed.username
  have built := sendRequest_deleteUser index short
  have parses := deleteUserSubstates_parse (chars typed.username) (by omega)
  rw [← chars_of_plain]
  constructor
  · rintro ⟨first, rest, states, sent, -, -, -, table, parses'⟩
    obtain ⟨rfl, rfl⟩ : first = 0x0B ∧ rest = _ := by simpa using sent.symm.trans built
    obtain rfl : states = deleteUserSubstates := (Option.some.inj table).symm
    have fits : (counted (chars typed.username)).length ≤ rawBuffSize := by
      rw [counted_length]
      change _ ≤ 2048
      omega
    exact parses_unique parses parses' rfl (by simp [counted]) fits
      List.mem_cons_self List.mem_cons_self
  · intro plain
    rw [plain] at built parses
    exact ⟨_, _, _, built, indexSubstates_parse rfl, rfl, index, rfl, parses⟩

end

/-- Credentials arrive if and only if the array of `send_credentials` takes them, and what
is typed for a request arrives if and only if no NUL is in it. -/
theorem messages_arrive_iff (username password : List UInt8) (typed : Typed) :
    (username.length ≤ 255 → password.length ≤ 255 → 0 ∉ username → 0 ∉ password →
      (CredentialsArrive username password ↔ username.length + password.length ≤ 506)) ∧
    (typed.username.length ≤ 254 → typed.password.length ≤ 254 →
      (typed.index = 10 →
        (RequestArrives typed .addUser [(1, typed.username), (3, typed.password)] ↔
          0 ∉ typed.username ∧ 0 ∉ typed.password)) ∧
      (typed.index = 11 →
        (RequestArrives typed .deleteUser [(1, typed.username)] ↔ 0 ∉ typed.username))) := by
  constructor
  · intro short short' _ _
    exact credentials_arrive_iff short short'
  · intro short short'
    constructor
    · intro index
      exact addUser_arrives_iff index short short'
    · intro index
      exact deleteUser_arrives_iff index short

theorem bob_arrives :
    CredentialsArrive [0x62, 0x6F, 0x62] [0x70, 0x77] ∧
      RequestArrives ⟨10, [0x62, 0x6F, 0x62], [0x70, 0x77], []⟩ .addUser
        [(1, [0x62, 0x6F, 0x62]), (3, [0x70, 0x77])] ∧
      RequestArrives ⟨11, [0x62, 0x6F, 0x62], [], []⟩ .deleteUser [(1, [0x62, 0x6F, 0x62])] := by
  obtain ⟨credentials, added⟩ := messages_arrive_iff [0x62, 0x6F, 0x62] [0x70, 0x77]
    ⟨10, [0x62, 0x6F, 0x62], [0x70, 0x77], []⟩
  have deleted := (messages_arrive_iff [] [] ⟨11, [0x62, 0x6F, 0x62], [], []⟩).2
  refine ⟨?_, ?_, ?_⟩
  · exact (credentials (by decide) (by decide) (by decide) (by decide)).mpr (by decide)
  · exact ((added (by decide) (by decide)).1 rfl).mpr (by decide)
  · exact ((deleted (by decide) (by decide)).2 rfl).mpr (by decide)

/-- The longest username and password do not fit: the last characters are stored past the
array. -/
theorem longest_overflow :
    ¬ ∀ username password : List UInt8, 1 ≤ username.length ∧ username.length ≤ 255 →
      1 ≤ password.length ∧ password.length ≤ 255 → 0 ∉ username → 0 ∉ password →
        CredentialsArrive username password := by
  intro arrive
  let longest : List UInt8 := List.replicate 255 0x61
  have length : longest.length = 255 := List.length_replicate
  have plain : 0 ∉ longest := fun zero => nomatch List.eq_of_mem_replicate zero
  have sized : 1 ≤ longest.length ∧ longest.length ≤ 255 := by
    rw [length]
    decide
  obtain ⟨sent, built, -⟩ := arrive longest longest sized sized plain plain
  exact sendCredentials_full (by rw [length]; decide) sent built

end SocksProxy.Client
