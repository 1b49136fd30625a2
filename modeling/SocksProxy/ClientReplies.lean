import Mathlib.Data.UInt
import Mathlib.Tactic.IntervalCases
import SocksProxy.Boot
import SocksProxy.Client
import SocksProxy.Unanswered

/-!
# What the client makes of a reply

The client reads a reply out of one `recv` of at most 500 bytes, a name's length out
of one byte and a metric out of four. It shows what the server has if and only if
the reply was received whole and every number fits.
-/

namespace SocksProxy.Client

open Lib

section
variable {received whole rest v name : List UInt8} {names : List (List UInt8)} {i k n : Nat} {b : UInt8}

/-! ## A metric -/

theorem join_bytes (v : UInt32) : v.toUInt8.toUInt32 ||| (v >>> 8).toUInt8.toUInt32 <<< 8 |||
    (v >>> 16).toUInt8.toUInt32 <<< 16 ||| (v >>> 24).toUInt8.toUInt32 <<< 24 = v := by
  rw [← UInt32.toNat_inj]
  apply Nat.eq_of_testBit_eq
  intro i
  have bound (h : 32 ≤ i) : v.toNat.testBit i = false :=
    Nat.testBit_lt_two_pow (Nat.lt_of_lt_of_le v.toNat_lt (Nat.pow_le_pow_right (by decide) h))
  simp only [UInt32.toNat_or, UInt32.toNat_shiftLeft, UInt8.toNat_toUInt32, UInt32.toNat_toUInt8,
    UInt32.toNat_shiftRight, Nat.testBit_or, Nat.testBit_mod_two_pow, Nat.testBit_shiftLeft,
    Nat.testBit_shiftRight, UInt32.reduceToNat, Nat.reduceMod]
  grind

theorem byteAt_ok : byteAt received i = .ok b ↔ received[i]? = some b := by
  unfold byteAt
  cases received[i]? <;> simp

theorem castUint32_whole (status : UInt8) (value : UInt64) :
    castUint32 (status :: uint32Bytes value) = .ok value.toUInt32 := by
  have joined := join_bytes value.toUInt32
  simp only [castUint32, uint32Bytes, byteAt, List.getElem?_cons_succ, List.getElem?_cons_zero,
    ok_bind]
  rw [joined]

theorem castUint32_short (short : received.length < 5) : ∀ stats, castUint32 received ≠ .ok stats := by
  intro stats h
  unfold castUint32 at h
  obtain ⟨_, -, h⟩ := bind_eq_ok.mp h
  obtain ⟨_, -, h⟩ := bind_eq_ok.mp h
  obtain ⟨_, -, h⟩ := bind_eq_ok.mp h
  obtain ⟨_, fourth, -⟩ := bind_eq_ok.mp h
  have bound := (List.getElem?_eq_some_iff.mp (byteAt_ok.mp fourth)).1
  omega

/-! ## The listing -/

/-- A name of the listing: its length in a byte, and its characters. -/
def listed (name : List UInt8) : List UInt8 := UInt8.ofNat name.length :: name

theorem strncpy_plain (before rest : List UInt8) (plain : (0 : UInt8) ∉ v) :
    strncpy (before ++ v ++ rest) before.length v.length = .ok v := by
  induction v generalizing before with
  | nil => rfl
  | cons b v ih =>
    have here : byteAt (before ++ (b :: v) ++ rest) before.length = .ok b := by
      rw [byteAt_ok]
      simp
    have nonzero : b ≠ 0 := fun zero => plain (zero ▸ List.mem_cons_self)
    have next := ih (before ++ [b]) fun member => plain (List.mem_cons_of_mem _ member)
    rw [List.length_append, List.length_singleton] at next
    have same : before ++ [b] ++ v ++ rest = before ++ (b :: v) ++ rest := by simp
    rw [same] at next
    simp only [List.length_cons, strncpy, here, ok_bind, if_neg nonzero, next]

/-- `strncpy` gives at most `n` characters, and it read them all if it gives `n`. -/
theorem strncpy_ok (h : strncpy received i n = .ok v) :
    v.length ≤ n ∧ (v.length = n → 0 < n → i + n ≤ received.length) := by
  induction n generalizing i v with
  | zero =>
    cases h
    exact ⟨Nat.le_refl _, fun _ some' => absurd some' (Nat.lt_irrefl 0)⟩
  | succ n ih =>
    unfold strncpy at h
    obtain ⟨b, first, h⟩ := bind_eq_ok.mp h
    have bound := (List.getElem?_eq_some_iff.mp (byteAt_ok.mp first)).1
    split at h
    · cases h
      refine ⟨Nat.zero_le _, fun none => ?_⟩
      cases none
    · obtain ⟨rest, more, h⟩ := bind_eq_ok.mp h
      cases h
      obtain ⟨few, all⟩ := ih more
      refine ⟨Nat.succ_le_succ few, fun whole _ => ?_⟩
      have whole : rest.length = n := Nat.succ.inj whole
      by_cases last : n = 0
      · omega
      · have := all whole (Nat.pos_of_ne_zero last)
        omega

theorem listLoop_plain (before rest : List UInt8) (short : ∀ name ∈ names, name.length ≤ 255)
    (plain : ∀ name ∈ names, (0 : UInt8) ∉ name) :
    listLoop (before ++ names.flatMap listed ++ rest) names.length before.length = .ok names := by
  induction names generalizing before with
  | nil => rfl
  | cons name names ih =>
    have fits := short name List.mem_cons_self
    have length : (UInt8.ofNat name.length).toNat = name.length :=
      UInt8.toNat_ofNat_of_lt (by change name.length < 256; omega)
    have first : byteAt (before ++ (name :: names).flatMap listed ++ rest) before.length =
        .ok (UInt8.ofNat name.length) := by
      rw [byteAt_ok]
      simp [listed]
    have copied := strncpy_plain (before ++ [UInt8.ofNat name.length])
      (names.flatMap listed ++ rest) (plain name List.mem_cons_self)
    have next := ih (before ++ listed name) (fun n member => short n (List.mem_cons_of_mem _ member))
      (fun n member => plain n (List.mem_cons_of_mem _ member))
    have same : before ++ [UInt8.ofNat name.length] ++ name ++ (names.flatMap listed ++ rest) =
        before ++ (name :: names).flatMap listed ++ rest := by simp [listed]
    have same' : before ++ listed name ++ names.flatMap listed ++ rest =
        before ++ (name :: names).flatMap listed ++ rest := by simp
    have place : before.length + 1 + name.length = (before ++ listed name).length := by
      simp [listed]
      omega
    rw [same, List.length_append, List.length_singleton] at copied
    rw [same', ← place] at next
    simp only [List.length_cons, listLoop, first, ok_bind, length, copied, next]

/-- A loop that gives the names saw all of them, and each length fitted in its byte. -/
theorem listLoop_needs (before : List UInt8) (start : before.length ≤ k)
    (h : listLoop ((before ++ names.flatMap listed).take k) names.length before.length =
      .ok names) :
    (∀ name ∈ names, name.length ≤ 255) ∧ (before ++ names.flatMap listed).length ≤ k := by
  induction names generalizing before with
  | nil => exact ⟨fun _ member => (nomatch member), by simpa using start⟩
  | cons name names ih =>
    simp only [List.length_cons, listLoop] at h
    obtain ⟨length, first, h⟩ := bind_eq_ok.mp h
    obtain ⟨aux, copied, h⟩ := bind_eq_ok.mp h
    obtain ⟨tail, more, h⟩ := bind_eq_ok.mp h
    simp only [Except.ok.injEq, List.cons.injEq] at h
    obtain ⟨rfl, rfl⟩ := h
    obtain ⟨bound, here⟩ := List.getElem?_eq_some_iff.mp (byteAt_ok.mp first)
    have seen : length = UInt8.ofNat aux.length := by
      simpa [listed] using here.symm
    have small : length.toNat = aux.length % 256 := by
      rw [seen]
      exact UInt8.toNat_ofNat
    obtain ⟨few, all⟩ := strncpy_ok copied
    have fits : aux.length ≤ 255 := by omega
    have exact' : length.toNat = aux.length := by omega
    have reached : before.length + 1 + aux.length ≤ k := by
      rw [List.length_take] at bound
      by_cases empty : aux.length = 0
      · omega
      · have := all exact'.symm (by omega)
        rw [List.length_take] at this
        omega
    have same : before ++ (aux :: tail).flatMap listed =
        (before ++ listed aux) ++ tail.flatMap listed := by simp
    have place : (before ++ listed aux).length = before.length + 1 + aux.length := by
      simp [listed]
      omega
    rw [same, exact', ← place] at more
    obtain ⟨short, long⟩ := ih (before ++ listed aux) (by omega) more
    refine ⟨?_, by rwa [same]⟩
    intro n member
    rcases List.mem_cons.mp member with rfl | member
    · exact fits
    · exact short n member

/-! ## The replies -/

/-- The names of a table. -/
def userNames (heap : Heap) (users : UserTable) : List (List UInt8) :=
  (userLengths heap users users.nusers 0).toOption.getD []

/-- What the server has under an index that takes no parameters. -/
def served (names : List (List UInt8)) (m : Metrics) : MngRequestIndex → Option Shown
  | .supportedIndexes => some (.indexes ((List.range mngRequestIndexes.length).map UInt8.ofNat))
  | .listUsers => some (.users names)
  | i => (metricOf m i).map fun value => .stats value.toNat

def replySize (names : List (List UInt8)) : MngRequestIndex → Nat
  | .supportedIndexes => 16
  | .listUsers => 2 + (names.flatMap listed).length
  | _ => 5

/-- What `recv` stores of a reply when `available` bytes of it have come. -/
def stored (reply : List UInt8) (available : Nat) : List UInt8 := reply.take (min available 500)

/-- The whole reply came at once and fits, and so does each number in it. -/
structure Fits (names : List (List UInt8)) (m : Metrics) (available : Nat) (i : MngRequestIndex) :
    Prop where
  whole : replySize names i ≤ min available 500
  short : i = .listUsers → ∀ name ∈ names, name.length ≤ 255
  small : ∀ value, metricOf m i = some value → value.toNat < 2 ^ 32

theorem userLengths_tabled {heap : Heap} {t : UserTable} {ptrs : List (Nat × Nat)}
    {accounts : List Account} (stored : List.Forall₂ (Stored heap) ptrs accounts)
    (held : Slots t.slots i ptrs) :
    userLengths heap t ptrs.length i = .ok (accounts.map Account.name) := by
  induction stored generalizing i with
  | nil => rfl
  | @cons p a ptrs accounts here _ ih =>
    obtain ⟨block, -, plain, -⟩ := here
    have loaded : heap.load (some p.1) = .ok (p.1, a.name ++ [0]) := by simp [Heap.load, block]
    simp only [List.length_cons, userLengths, held.head, slotOf, loaded, ok_bind, cString_chars,
      ih held.tail, plain, List.map_cons]

/-- A reached table has at most 255 names, none with a NUL in it. -/
theorem names_reached {σ : Heap × UserTable} {us : List ((Heap × UserTable) × TableOp)}
    (run : Run TableStep noUsers us σ) :
    userLengths σ.1 σ.2 σ.2.nusers 0 = .ok (userNames σ.1 σ.2) ∧ (userNames σ.1 σ.2).length ≤ 255 ∧
      ∀ name ∈ userNames σ.1 σ.2, (0 : UInt8) ∉ name := by
  obtain ⟨ptrs, accounts, tabled⟩ := run_tabled run
  have lengths := userLengths_tabled tabled.stored tabled.slots
  rw [← tabled.length] at lengths
  have few := run_few run
  have same : userNames σ.1 σ.2 = accounts.map Account.name := by
    unfold userNames
    rw [lengths]
    rfl
  rw [same]
  refine ⟨lengths, ?_, fun name member => ?_⟩
  · rw [List.length_map, ← tabled.stored.length_eq, ← tabled.length]
    exact few
  · obtain ⟨a, there, rfl⟩ := List.mem_map.mp member
    exact chars_of_plain.mp (tabled.plain a there).1

theorem marshal_readPtr {wb : Buffer} {need : Nat} {bytes : List UInt8} (room : need ≤ bufferWritePtr wb)
    (enough : bytes.length ≤ need) (empty : bufferReadPtr wb = []) :
    bufferReadPtr (marshalIfRoom wb need bytes) = bytes := by
  unfold marshalIfRoom
  rw [if_pos room, dif_pos (Nat.le_trans enough room), bufferPut_readPtr, empty]
  rfl

/-- The sizes are checked without the bytes of the lengths. -/
theorem namesFit_of_listing {room : Nat} (fits : (names.map List.length).sum ≤ room) :
    namesFit room names = true := by
  induction names generalizing room with
  | nil => rfl
  | cons name names ih =>
    rw [List.map_cons, List.sum_cons] at fits
    have small : ¬ name.length > room := by omega
    rw [namesFit, if_neg small]
    exact ih (by omega)

theorem listing_length (names : List (List UInt8)) :
    (names.flatMap listed).length = (names.map List.length).sum + names.length := by
  induction names with
  | nil => rfl
  | cons name names ih =>
    simp only [List.flatMap_cons, List.length_append, ih, listed, List.length_cons, List.map_cons,
      List.sum_cons]
    omega

/-! ## What is shown -/

theorem stored_get {reply : List UInt8} {available : Nat} (some' : 0 < min available 500) :
    (stored reply available)[0]? = reply[0]? := by
  rw [stored, List.getElem?_take, if_pos some']

theorem stored_length (reply : List UInt8) (available : Nat) :
    (stored reply available).length = min (min available 500) reply.length := List.length_take

/-- A reply that is read to its end has come whole. -/
theorem stored_whole {reply : List UInt8} {available : Nat}
    (whole : reply.length ≤ min available 500) : stored reply available = reply :=
  List.take_of_length_le whole

theorem requestResponse_read {shown : Shown} {reqIndex : Nat}
    (h : requestResponse received reqIndex = .ok (some shown)) : 0 < received.length := by
  unfold requestResponse at h
  obtain ⟨status, first, -⟩ := bind_eq_ok.mp h
  exact (List.getElem?_eq_some_iff.mp (byteAt_ok.mp first)).1

theorem requestResponse_indexes (status : received[0]? = some 0) :
    requestResponse received 0 = supportedIndexes received >>= fun supported =>
      .ok (some (.indexes supported)) := by
  simp [requestResponse, byteAt_ok.mpr status]

theorem requestResponse_users (status : received[0]? = some 0) :
    requestResponse received 1 = listUsers received >>= fun names => .ok (some (.users names)) := by
  simp [requestResponse, byteAt_ok.mpr status]

theorem requestResponse_stats (status : received[0]? = some 0) {reqIndex : Nat}
    (low : 2 ≤ reqIndex) (high : reqIndex ≤ 9) :
    requestResponse received reqIndex = castUint32 received >>= fun stats =>
      .ok (some (.stats stats.toNat)) := by
  simp only [requestResponse, byteAt_ok.mpr status, ok_bind, ne_eq, not_true_eq_false, if_false]
  interval_cases reqIndex <;> rfl

theorem supportedLoop_ok {bs : List UInt8} (h : supportedLoop received n i = .ok bs) :
    bs.length = n ∧ (0 < n → 2 + i + n ≤ received.length) := by
  induction n generalizing i bs with
  | zero =>
    cases h
    exact ⟨rfl, fun some' => absurd some' (Nat.lt_irrefl 0)⟩
  | succ n ih =>
    unfold supportedLoop at h
    obtain ⟨b, first, h⟩ := bind_eq_ok.mp h
    obtain ⟨rest, more, h⟩ := bind_eq_ok.mp h
    cases h
    have bound := (List.getElem?_eq_some_iff.mp (byteAt_ok.mp first)).1
    obtain ⟨length, long⟩ := ih more
    refine ⟨by rw [List.length_cons, length], fun _ => ?_⟩
    by_cases last : n = 0
    · omega
    · have := long (Nat.pos_of_ne_zero last)
      omega

def supportedReply : List UInt8 :=
  [0x00, 0x0E, 0x00, 0x01, 0x02, 0x03, 0x04, 0x05, 0x06, 0x07, 0x08, 0x09, 0x0A, 0x0B, 0x0C, 0x0D]

theorem indexes_shown (available : Nat) :
    requestResponse (stored supportedReply available) 0 =
      .ok (some (.indexes ((List.range mngRequestIndexes.length).map UInt8.ofNat))) ↔
        16 ≤ min available 500 := by
  constructor
  · intro h
    have some' := requestResponse_read h
    rw [stored_length] at some'
    have some' : 0 < min available 500 := by omega
    rw [requestResponse_indexes (stored_get some')] at h
    obtain ⟨bs, shown, h⟩ := bind_eq_ok.mp h
    unfold supportedIndexes at shown
    obtain ⟨b, -, shown⟩ := bind_eq_ok.mp shown
    obtain ⟨length, long⟩ := supportedLoop_ok shown
    cases h
    have many : b.toNat = 14 := length.symm
    have := long (by omega)
    rw [stored_length] at this
    omega
  · intro whole
    rw [stored_whole whole]
    rfl

theorem metric_shown {value : UInt64} {reqIndex : Nat} (low : 2 ≤ reqIndex) (high : reqIndex ≤ 9)
    (available : Nat) : requestResponse (stored (0x00 :: uint32Bytes value) available) reqIndex =
      .ok (some (.stats value.toNat)) ↔ 5 ≤ min available 500 ∧ value.toNat < 2 ^ 32 := by
  have narrowed : value.toUInt32.toNat = value.toNat % 2 ^ 32 := UInt64.toNat_toUInt32 value
  constructor
  · intro h
    have some' := requestResponse_read h
    rw [stored_length] at some'
    have some' : 0 < min available 500 := by omega
    rw [requestResponse_stats (stored_get some') low high] at h
    obtain ⟨stats, cast, h⟩ := bind_eq_ok.mp h
    have whole : 5 ≤ min available 500 := by
      by_contra short
      refine castUint32_short ?_ stats cast
      rw [stored_length]
      omega
    rw [stored_whole whole, castUint32_whole] at cast
    cases cast
    simp only [Except.ok.injEq, Option.some.injEq, Shown.stats.injEq] at h
    exact ⟨whole, by omega⟩
  · rintro ⟨whole, small⟩
    rw [stored_whole whole, requestResponse_stats rfl low high, castUint32_whole, ok_bind, narrowed,
      Nat.mod_eq_of_lt small]

theorem users_shown (few : names.length ≤ 255) (plain : ∀ name ∈ names, (0 : UInt8) ∉ name)
    (available : Nat) : requestResponse (stored (listUsersBytes names) available) 1 =
      .ok (some (.users names)) ↔
        2 + (names.flatMap listed).length ≤ min available 500 ∧ ∀ name ∈ names, name.length ≤ 255 := by
  have bytes : listUsersBytes names = [0x00, UInt8.ofNat names.length] ++ names.flatMap listed := rfl
  have count : (UInt8.ofNat names.length).toNat = names.length :=
    UInt8.toNat_ofNat_of_lt (by change names.length < 256; omega)
  constructor
  · intro h
    have some' := requestResponse_read h
    rw [stored_length] at some'
    have some' : 0 < min available 500 := by omega
    rw [requestResponse_users (stored_get some')] at h
    obtain ⟨shown, seen, h⟩ := bind_eq_ok.mp h
    cases h
    unfold listUsers at seen
    obtain ⟨b, first, seen⟩ := bind_eq_ok.mp seen
    obtain ⟨bound, here⟩ := List.getElem?_eq_some_iff.mp (byteAt_ok.mp first)
    rw [stored_length] at bound
    obtain rfl : UInt8.ofNat names.length = b := by
      simpa [stored, bytes] using here
    rw [count, stored, bytes] at seen
    obtain ⟨short, long⟩ := listLoop_needs _ (by change 2 ≤ _; omega) seen
    rw [List.length_append] at long
    exact ⟨long, short⟩
  · rintro ⟨whole, short⟩
    have length : (listUsersBytes names).length = 2 + (names.flatMap listed).length := by
      rw [bytes, List.length_append]
      rfl
    have seen := listLoop_plain [0x00, UInt8.ofNat names.length] [] short plain
    rw [List.append_nil] at seen
    rw [stored_whole (by omega), requestResponse_users rfl, listUsers]
    have second : byteAt (listUsersBytes names) 1 = .ok (UInt8.ofNat names.length) := rfl
    rw [second, ok_bind, count, bytes]
    change listLoop _ names.length 2 = _ at seen
    rw [seen, ok_bind]

/-- The reply to each index is one of the three kinds. -/
theorem reply_marshalled {c : Conn} {index : UInt8} {m : MngRequestIndex} {names : List (List UInt8)}
    (quiet : c.Quiet) (known : mngIndexOf index = some m)
    (lengths : userLengths c.heap c.users c.users.nusers 0 = .ok names)
    (listing : (listUsersBytes names).length ≤ rawBuffSize) :
    (m = .supportedIndexes → ∃ wb, processMngIndex c index = .ok (.requestWrite, wb) ∧
        bufferReadPtr wb = supportedReply) ∧
      (m = .listUsers → ∃ wb, processMngIndex c index = .ok (.requestWrite, wb) ∧
        bufferReadPtr wb = listUsersBytes names) ∧
      ∀ value, metricOf c.metrics m = some value →
        ∃ wb, processMngIndex c index = .ok (.requestWrite, wb) ∧
          bufferReadPtr wb = 0x00 :: uint32Bytes value := by
  have room := quiet.room
  refine ⟨?_, ?_, ?_⟩
  · rintro rfl
    refine ⟨supportedIndexesMngRequestMarshall c.writeBuffer, by simp only [processMngIndex, known],
      marshal_readPtr ?_ (by decide) quiet.empty⟩
    rw [room]
    decide
  · rintro rfl
    have sizes : namesFit ((bufferWritePtr c.writeBuffer + sizeMax - 2) % sizeMax) names = true := by
      have wide : (bufferWritePtr c.writeBuffer + sizeMax - 2) % sizeMax = 2046 := by
        rw [room]
        decide
      have length := listing_length names
      rw [wide]
      apply namesFit_of_listing
      have whole : (listUsersBytes names).length = 2 + (names.flatMap listed).length :=
        List.length_append
      have : rawBuffSize = 2048 := rfl
      omega
    have enough : (listUsersBytes names).length ≤ bufferWritePtr c.writeBuffer := room ▸ listing
    refine ⟨bufferPut c.writeBuffer (listUsersBytes names) enough, ?_, ?_⟩
    · simp only [processMngIndex, known, listUsersMngRequestMarshall, lengths, ok_bind, sizes, if_true,
        dif_pos enough]
    · rw [bufferPut_readPtr, quiet.empty]
      rfl
  · intro value metric
    refine ⟨uintMngRequestMarshall c.writeBuffer value, ?_, marshal_readPtr ?_ (by simp [uint32Bytes])
      quiet.empty⟩
    · cases m <;> first | (cases metric; done) | simp only [processMngIndex, known, metric]
    · rw [room]
      decide

/-- An administrator who logged in, in a server with this table and these metrics. -/
theorem admin_waits (heap : Heap) (users : UserTable) (metrics : Metrics) :
    ∃ s ls t, JustAccepted false s ∧ Run Guarded s ls t ∧ t.Waits ∧ t.conn.heap = heap ∧
      t.conn.users = users ∧ t.conn.metrics = metrics := by
  let waiting (t : Session) : Bool := decide (t.stm.current = some MngState.requestReadIndex.num)
  have plays : (accepted false firstAccept userWorld).any (fun s => decide (s.conn.self = 7) &&
      checks (fun _ _ _ _ => true) s adminLogin && (play s adminLogin).any waiting) = true := by
    decide +kernel
  obtain ⟨s, ls, t, start, run, -, current⟩ :=
    accepted_played rfl (by decide) userWorld_ready plays
  have waits : t.Waits := .inl (of_decide_eq_true current)
  have administers : t.Administers :=
    run.always (fun _ _ _ h step => administers_step h step) (accepted_administers start)
  let w : World := { t.conn.toWorld with heap := heap, users := users, metrics := metrics }
  have rely : Rely t.conn w := by
    rcases administers.stage with ⟨footing, -⟩ | ⟨terminal, -⟩
    · exact footing_rely footing rfl rfl rfl
    · rw [of_decide_eq_true current] at terminal
      exact absurd terminal (by decide)
  have step : Guarded t (.env w) ⟨t.stm, { t.conn with toWorld := w }⟩ := ⟨rely, rfl⟩
  exact ⟨s, _, _, start, .next run step, waits, rfl, rfl, rfl⟩

/-- What the client shows is what the server has if and only if the reply came whole
in one `recv` of at most 500 bytes, no name is longer than 255, and the metric is below 2^32. -/
theorem reply_shown_iff {s t : Session} {ls : List (Session × Label)}
    {us : List ((Heap × UserTable) × TableOp)} (start : JustAccepted false s)
    (run : Run Guarded s ls t) (waits : t.Waits)
    (table : Run TableStep noUsers us (t.conn.heap, t.conn.users))
    (listing : (listUsersBytes (userNames t.conn.heap t.conn.users)).length ≤ rawBuffSize)
    {index : UInt8} {m : MngRequestIndex} (known : mngIndexOf index = some m) (plain : index ≤ 0x09)
    (available : Nat) :
    ∃ shown wb, served (userNames t.conn.heap t.conn.users) t.conn.metrics m = some shown ∧
      processMngIndex t.conn index = .ok (.requestWrite, wb) ∧
      (requestResponse (stored (bufferReadPtr wb) available) index.toNat = .ok (some shown) ↔
        Fits (userNames t.conn.heap t.conn.users) t.conn.metrics available m) := by
  obtain ⟨lengths, few, noNul⟩ := names_reached table
  obtain ⟨indexes, users, metric⟩ :=
    reply_marshalled (waits_quiet start run waits) known lengths listing
  have high : index.toNat ≤ 9 := plain
  have kind : index.toNat = 0 ∧ m = .supportedIndexes ∨ index.toNat = 1 ∧ m = .listUsers ∨
      2 ≤ index.toNat ∧ m ≠ .supportedIndexes ∧ m ≠ .listUsers ∧
        ∃ value, metricOf t.conn.metrics m = some value := by
    have there : mngRequestIndexes[index.toNat]? = some m := known
    generalize index.toNat = n at high there
    interval_cases n <;> obtain rfl := Option.some.inj there <;> simp [metricOf]
  rcases kind with ⟨zero, rfl⟩ | ⟨one, rfl⟩ | ⟨low, notIndexes, notUsers, value, has⟩
  · obtain ⟨wb, marshalled, reply⟩ := indexes rfl
    refine ⟨_, wb, rfl, marshalled, ?_⟩
    rw [reply, zero, indexes_shown]
    exact ⟨fun whole => ⟨whole, nofun, nofun⟩, fun fits => fits.whole⟩
  · obtain ⟨wb, marshalled, reply⟩ := users rfl
    refine ⟨_, wb, rfl, marshalled, ?_⟩
    rw [reply, one, users_shown few noNul]
    exact ⟨fun h => ⟨h.1, fun _ => h.2, nofun⟩, fun fits => ⟨fits.whole, fits.short rfl⟩⟩
  · obtain ⟨wb, marshalled, reply⟩ := metric value has
    have five : replySize (userNames t.conn.heap t.conn.users) m = 5 := by
      cases m <;> first | rfl | contradiction
    refine ⟨.stats value.toNat, wb, ?_, marshalled, ?_⟩
    · cases m <;> first | contradiction | simp [served, has]
    · rw [reply, metric_shown low high]
      constructor
      · rintro ⟨whole, small⟩
        refine ⟨by rwa [five], fun same => absurd same notUsers, fun v other => ?_⟩
        obtain rfl := Option.some.inj (has.symm.trans other)
        exact small
      · intro fits
        exact ⟨five ▸ fits.whole, fits.small value has⟩

/-- The listing of one user. -/
theorem reply_shown_listing : ∃ (t : Session) (wb : Buffer), t.conn.users.nusers = 1 ∧
    processMngIndex t.conn 0x01 = .ok (.requestWrite, wb) ∧
    requestResponse (stored (bufferReadPtr wb) 4) 1 = .ok (some (.users [[117]])) := by
  let σ := appendUser noUsers.1 noUsers.2 [117] [112]
  have added : TableStep noUsers (.option [117, 58, 112]) σ := ⟨rfl, fun _ h => nomatch h⟩
  obtain ⟨s, ls, t, start, run, waits, heap, users, -⟩ := admin_waits σ.1 σ.2 .zero
  have names : userNames t.conn.heap t.conn.users = [[117]] := by
    rw [heap, users]
    rfl
  have table : Run TableStep noUsers [(noUsers, .option [117, 58, 112])] (t.conn.heap, t.conn.users) := by
    rw [heap, users]
    exact .single added
  obtain ⟨shown, wb, has, marshalled, iff⟩ := reply_shown_iff start run waits table
    (by rw [names]; decide) (show mngIndexOf 0x01 = some .listUsers from rfl) (by decide) 4
  rw [names] at has iff
  have fits : Fits [[117]] t.conn.metrics 4 .listUsers := by
    refine ⟨by decide, fun _ => by decide, fun value other => by cases other⟩
  obtain rfl := Option.some.inj has
  exact ⟨t, wb, by rw [users]; rfl, marshalled, iff.mpr fits⟩

/-- After 2^32 bytes the client shows 0. -/
theorem bytes_shown_zero : ∃ (s : Session) (ls : List (Session × Label)) (t : Session)
    (us : List ((Heap × UserTable) × TableOp)) (wb : Buffer), JustAccepted false s ∧ Run Guarded s ls t ∧ t.Waits ∧
    Run TableStep noUsers us (t.conn.heap, t.conn.users) ∧
    t.conn.metrics.historicByteTransfer = 2 ^ 32 ∧
    processMngIndex t.conn 0x05 = .ok (.requestWrite, wb) ∧
    requestResponse (stored (bufferReadPtr wb) 500) 5 = .ok (some (.stats 0)) := by
  obtain ⟨s, ls, t, start, run, waits, heap, users, metrics⟩ := admin_waits noUsers.1 noUsers.2
    { Metrics.zero with historicByteTransfer := 2 ^ 32 }
  have table : Run TableStep noUsers [] (t.conn.heap, t.conn.users) := by
    rw [heap, users]
    exact .start
  have names : userLengths t.conn.heap t.conn.users t.conn.users.nusers 0 = .ok [] := by
    rw [heap, users]
    rfl
  obtain ⟨-, -, metric⟩ := reply_marshalled (waits_quiet start run waits)
    (show mngIndexOf 0x05 = some .historicBytesTransferred from rfl) names (by decide)
  obtain ⟨wb, marshalled, reply⟩ := metric (2 ^ 32) (by rw [metrics]; rfl)
  refine ⟨s, ls, t, [], wb, start, run, waits, table, by rw [metrics], marshalled, ?_⟩
  have whole : stored (0x00 :: uint32Bytes (2 ^ 32)) 500 = 0x00 :: uint32Bytes (2 ^ 32) :=
    stored_whole (by decide)
  rw [reply, whole, requestResponse_stats rfl (by decide) (by decide), castUint32_whole]
  rfl

end

end SocksProxy.Client
