import Mathlib.Data.List.Induction
import SocksProxy.RequestDecoding

/-!
# The fields of the request are not left

`Bounded` says it of what the parser was fed. The one announcement that breaks it
is a domain of length zero: its NUL goes to `host[-1]`.
-/

namespace SocksProxy

open Lib

/-- The number of bytes of a target. -/
def StoreTarget.size : StoreTarget → Int
  | .sinAddr => 4
  | .sin6Addr => 16
  | .host => 255
  | .destPort => 2

/-- The bytes that were taken as bytes of the address. -/
def addressBytes : RequestParser → List UInt8 → Nat
  | _, [] => 0
  | p, b :: w => (if p.state = .destAddr then 1 else 0) + addressBytes (requestParserFeed p b) w

/-- The length of the address, as the type or the byte behind it announces it. -/
def announcedLength : List UInt8 → Nat
  | _ :: _ :: _ :: type :: w =>
    if type = socksReqAddrtypeIpv4 then 4
    else if type = socksReqAddrtypeIpv6 then 16
    else (w.headD 0).toNat
  | _ => 0

structure Bounded (q : Request) (w : List UInt8) : Prop where
  stores : ∀ s ∈ (w.foldl requestParserFeed (freshParser q)).stores, 0 ≤ s.2 ∧ s.2 < s.1.size
  read : ∀ u, u <+: w → (u.foldl requestParserFeed (freshParser q)).read ≤
    (u.foldl requestParserFeed (freshParser q)).remaining
  address : ∀ u, u <+: w → (u.foldl requestParserFeed (freshParser q)).state = .destPort →
    addressBytes (freshParser q) u = announcedLength u

section
variable {p : RequestParser} {q : Request} {kind : AddressKind} {w u x : List UInt8} {rsv : UInt8}

theorem storesTo_inside {t : StoreTarget} {n : Nat} (fits : n ≤ t.size) :
    ∀ s ∈ storesTo t n, 0 ≤ s.2 ∧ s.2 < s.1.size := by
  intro s member
  obtain ⟨i, low, rfl⟩ := List.mem_map.mp member
  have bound : i < n := List.mem_range.mp low
  constructor
  · exact Int.natCast_nonneg i
  · change (i : Int) < t.size
    omega

theorem terminator_inside (allowed : kind.Allowed) :
    ∀ s ∈ kind.terminator, 0 ≤ s.2 ∧ s.2 < s.1.size := by
  intro s member
  cases kind with
  | ipv4 => cases member
  | ipv6 => cases member
  | domain n =>
    obtain rfl := List.mem_singleton.mp member
    obtain ⟨low, high⟩ : 1 ≤ n.toNat ∧ n.toNat ≤ 254 := allowed
    constructor
    · change 0 ≤ (n.toNat : Int) - 1
      omega
    · change (n.toNat : Int) - 1 < 255
      omega

theorem target_fits (allowed : kind.Allowed) : (kind.length : Int) ≤ kind.target.size := by
  cases kind with
  | ipv4 => decide
  | ipv6 => decide
  | domain n =>
    have high : n.toNat ≤ 254 := allowed.2
    change (n.toNat : Int) ≤ 255
    omega

/-- At every stage but the one of a domain of length zero, all stores were inside. -/
theorem Stage.stores_inside (h : Stage w p) (some' : ¬ ZeroLength w) :
    ∀ s ∈ p.stores, 0 ≤ s.2 ∧ s.2 < s.1.size := by
  have none (fresh : Untouched p) : ∀ s ∈ p.stores, 0 ≤ s.2 ∧ s.2 < s.1.size := by
    rw [fresh.stores]
    intro s member
    cases member
  have whole {kind : AddressKind} {n : Nat} (allowed : kind.Allowed) (within : n ≤ 2)
      (stores : p.stores = kind.terminator ++ storesTo kind.target kind.length ++
        storesTo .destPort n) : ∀ s ∈ p.stores, 0 ≤ s.2 ∧ s.2 < s.1.size := by
    rw [stores]
    intro s member
    rcases List.mem_append.mp member with member | member
    · rcases List.mem_append.mp member with member | member
      · exact terminator_inside allowed s member
      · exact storesTo_inside (target_fits allowed) s member
    · exact storesTo_inside (by change (n : Int) ≤ 2; omega) s member
  cases h with
  | version _ fresh => exact none fresh
  | cmd _ fresh => exact none fresh
  | rsv _ fresh _ => exact none fresh
  | atyp _ fresh _ => exact none fresh
  | fqdn _ fresh _ _ => exact none fresh
  | address allowed more reading =>
    rw [reading.stores]
    intro s member
    rcases List.mem_append.mp member with member | member
    · exact terminator_inside allowed s member
    · have fits := target_fits allowed
      exact storesTo_inside (by omega) s member
  | port allowed length more reading => exact whole allowed (by omega) reading.stores
  | @done _ r _ finished => exact whole r.allowed (by omega) finished.stores
  | refused _ fresh _ => exact none fresh
  | zero length => exact absurd length some'

theorem Stage.read_le (h : Stage w p) (some' : ¬ ZeroLength w) : p.read ≤ p.remaining := by
  have none (fresh : Untouched p) : p.read ≤ p.remaining := by
    rw [fresh.read, fresh.remaining]
    exact UInt8.le_refl 0
  cases h with
  | version _ fresh => exact none fresh
  | cmd _ fresh => exact none fresh
  | rsv _ fresh _ => exact none fresh
  | atyp _ fresh _ => exact none fresh
  | fqdn _ fresh _ _ => exact none fresh
  | address allowed more reading =>
    rw [UInt8.le_iff_toNat_le, reading.read, reading.remaining]
    omega
  | port allowed length more reading =>
    rw [UInt8.le_iff_toNat_le, reading.read, reading.remaining]
    exact Nat.le_of_lt more
  | done finished =>
    rw [finished.read, finished.remaining]
    exact UInt8.le_refl 2
  | refused _ fresh _ => exact none fresh
  | zero length => exact absurd length some'

/-! ## The bytes of the address -/

theorem addressBytes_append (p : RequestParser) (u v : List UInt8) :
    addressBytes p (u ++ v) = addressBytes p u + addressBytes (u.foldl requestParserFeed p) v := by
  induction u generalizing p with
  | nil => simp [addressBytes]
  | cons b u ih => simp [addressBytes, ih, Nat.add_assoc]

/-- Behind an allowed preamble, the parser reads the address until it is complete. -/
theorem preamble_state (h : Stage w p) (split : w = preamble rsv kind ++ x)
    (allowed : kind.Allowed) :
    p.state = .destAddr ↔ x.length < kind.length := by
  have length := congrArg List.length split
  have announced : 4 ≤ (preamble rsv kind).length := by
    cases kind <;> simp [preamble, AddressKind.announce]
  rw [List.length_append] at length
  cases h with
  | version => simp at length; omega
  | cmd => simp at length; omega
  | rsv => simp at length; omega
  | atyp => simp at length; omega
  | fqdn =>
    cases kind with
    | ipv4 =>
      simp [preamble, AddressKind.announce, socksReqAddrtypeIpv4, socksReqAddrtypeDomain] at split
    | ipv6 =>
      simp [preamble, AddressKind.announce, socksReqAddrtypeIpv6, socksReqAddrtypeDomain] at split
    | domain n => simp [preamble, AddressKind.announce] at split
  | address allowed' more reading =>
    obtain ⟨-, rfl, rfl⟩ := preamble_inj split
    exact iff_of_true reading.state more
  | port allowed' whole more reading =>
    obtain ⟨-, rfl, rfl⟩ := preamble_inj split
    refine iff_of_false (by rw [reading.state]; decide) ?_
    rw [List.length_append]
    omega
  | @done _ r _ finished =>
    rw [ConnectRequest.encode, List.append_assoc] at split
    obtain ⟨-, rfl, rfl⟩ := preamble_inj split
    refine iff_of_false (by rw [finished.state]; decide) ?_
    have addrLength := r.addr_length
    simp only [List.length_append]
    omega
  | refused error fresh malformed =>
    exact absurd (split ▸ malformed) (preamble_not_malformed allowed)
  | zero zero =>
    obtain ⟨rsv', rest, eq⟩ := zero
    obtain ⟨-, rfl, -⟩ := preamble_inj (split.symm.trans eq)
    exact absurd allowed.1 (by decide)

theorem addressBytes_preamble (q : Request) (rsv : UInt8) (kind : AddressKind) :
    addressBytes (freshParser q) (preamble rsv kind) = 0 := by
  cases kind <;> rfl

/-- Behind an allowed preamble the bytes of the address are those announced, as far as they came. -/
theorem addressBytes_eq (q : Request) (rsv : UInt8) (allowed : kind.Allowed) (x : List UInt8) :
    addressBytes (freshParser q) (preamble rsv kind ++ x) = min x.length kind.length := by
  induction x using List.reverseRecOn with
  | nil => simp [addressBytes_preamble]
  | append_singleton x b ih =>
    have state := preamble_state (parse_stage q (preamble rsv kind ++ x)) rfl allowed
    rw [← List.append_assoc, addressBytes_append, ih, List.length_append, List.length_singleton]
    simp only [addressBytes, state]
    split <;> omega

theorem announcedLength_preamble (allowed : kind.Allowed) :
    announcedLength (preamble rsv kind ++ x) = kind.length := by
  cases kind <;> rfl

theorem Stage.address_whole (h : Stage w (w.foldl requestParserFeed (freshParser q)))
    (state : (w.foldl requestParserFeed (freshParser q)).state = .destPort)
    (some' : ¬ ZeroLength w) : addressBytes (freshParser q) w = announcedLength w := by
  generalize (w.foldl requestParserFeed (freshParser q)) = p at h state
  cases h with
  | version other => rw [state] at other; cases other
  | cmd other => rw [state] at other; cases other
  | rsv other => rw [state] at other; cases other
  | atyp other => rw [state] at other; cases other
  | fqdn other => rw [state] at other; cases other
  | address allowed more reading => have other := reading.state; rw [state] at other; cases other
  | @port _ rsv kind addr part allowed length more reading =>
    rw [addressBytes_eq q rsv allowed, announcedLength_preamble allowed, List.length_append, length]
    omega
  | done finished => have other := finished.state; rw [state] at other; cases other
  | refused error => exact absurd error (by simp [RequestParser.InError, state])
  | zero length => exact absurd length some'

/-! ## Every stream -/

theorem zeroLength_longer (pre : u <+: w) (none : ZeroLength u) : ZeroLength w := by
  obtain ⟨more, rfl⟩ := pre
  exact zeroLength_append none more

theorem bounded_of_length (some' : ¬ ZeroLength w) : Bounded q w where
  stores := (parse_stage q w).stores_inside some'
  read u pre := (parse_stage q u).read_le fun none => some' (zeroLength_longer pre none)
  address u pre state :=
    (parse_stage q u).address_whole state fun none => some' (zeroLength_longer pre none)

theorem destAddr_stores (p : RequestParser) (b : UInt8) : p.stores <+: (destAddr p b).1.stores := by
  have stored (t : StoreTarget) (i : Int) : p.stores <+: (p.store t i b).stores :=
    List.prefix_append _ _
  have kept {s : RequestParser} (more : p.stores <+: s.stores) : p.stores <+:
      (if remainingIsDone s then
        ({ remainingSet s 2 with request := { s.request with destPort := [0, 0] } }, .destPort)
      else (s, .destAddr) : RequestParser × RequestState).1.stores := by
    split
    · exact more
    · exact more
  unfold destAddr
  split
  · exact kept (stored _ _)
  · split
    · exact kept (stored _ _)
    · split
      · exact kept (stored _ _)
      · exact kept List.prefix_rfl

/-- No store is ever forgotten. -/
theorem feed_stores (p : RequestParser) (b : UInt8) :
    p.stores <+: (requestParserFeed p b).stores := by
  cases state : p.state with
  | destAddr =>
    have fed : (requestParserFeed p b).stores = (destAddr p b).1.stores := by
      simp only [requestParserFeed, state]
    rw [fed]
    exact destAddr_stores p b
  | destAddrFqdn =>
    have fed : (requestParserFeed p b).stores = (destAddressFqdn p b).1.stores := by
      simp only [requestParserFeed, state]
    rw [fed]
    unfold destAddressFqdn
    split
    · exact List.prefix_rfl
    · exact List.prefix_append _ _
  | destPort =>
    have fed : (requestParserFeed p b).stores = (destPort p b).1.stores := by
      simp only [requestParserFeed, state]
    rw [fed]
    simp only [destPort]
    split
    · rw [(setPort_counts _).2.2]
      exact List.prefix_append _ _
    · exact List.prefix_append _ _
  | atyp =>
    have fed : (requestParserFeed p b).stores = (addressType p b).1.stores := by
      simp only [requestParserFeed, state]
    rw [fed]
    unfold addressType
    split
    · exact List.prefix_rfl
    · split
      · exact List.prefix_rfl
      · split
        · exact List.prefix_rfl
        · exact List.prefix_rfl
  | cmd =>
    have fed : (requestParserFeed p b).stores = (cmdState p b).1.stores := by
      simp only [requestParserFeed, state]
    rw [fed]
    unfold cmdState
    split
    · exact List.prefix_rfl
    · exact List.prefix_rfl
  | version | rsv | done | error | errorUnsupportedCmd | errorUnsupportedType
  | errorUnsupportedVersion =>
    simp only [requestParserFeed, state]
    exact List.prefix_rfl

/-- The NUL of a domain of length zero is stored before the host. -/
theorem zeroLength_unbounded (none : ZeroLength w) : ¬ Bounded q w := by
  obtain ⟨rsv, rest, rfl⟩ := none
  intro bounded
  have grows : ∀ (xs : List UInt8) (p : RequestParser),
      p.stores <+: (xs.foldl requestParserFeed p).stores := by
    intro xs
    induction xs with
    | nil => exact fun p => List.prefix_rfl
    | cons x xs ih => exact fun p => (feed_stores p x).trans (ih _)
  have before : (StoreTarget.host, (-1 : Int)) ∈
      ((preamble rsv (.domain 0)).foldl requestParserFeed (freshParser q)).stores :=
    List.mem_singleton.mpr rfl
  have stored := (grows rest _).subset before
  rw [← List.foldl_append] at stored
  exact absurd (bounded.stores _ stored).1 (by decide)

/-- The parser stays inside the fields of the request on every stream, however it is cut, but
the one that announces a domain of length zero. -/
theorem request_bounded_iff (q : Request) {b : Buffer} {chunks : List (List UInt8)}
    (rewound : b.Rewound) (arrives : Arrives b chunks) :
    ∃ b' left taken, bufferReadPtr b ++ chunks.flatten = taken ++ (bufferReadPtr b' ++ left.flatten) ∧
      receive requestConsumer b (freshParser q) chunks =
        .ok (b', taken.foldl requestParserFeed (freshParser q),
          requestIsDone (taken.foldl requestParserFeed (freshParser q)).state false, left) ∧
      (Bounded q taken ↔ ¬ ZeroLength (bufferReadPtr b ++ chunks.flatten)) := by
  obtain ⟨p, rest, b', left, fed, received, -, unread, -, -⟩ :=
    receive_spec requestConsumer_consumes (s := freshParser q) trivial rfl rewound arrives
  obtain ⟨taken, split, rfl, ends, first⟩ := request_loop fed
  refine ⟨b', left, taken, by rw [unread]; exact split, received, ?_⟩
  constructor
  · intro bounded none
    rw [split] at none
    refine zeroLength_unbounded ?_ bounded
    rcases ends with state | all
    · rcases taken_request state first with ⟨r, same, -⟩ | zero
      · exact absurd none (same ▸ encode_not_zero r rest)
      · exact zero
    · rwa [all, List.append_nil] at none
  · intro some'
    exact bounded_of_length fun none => some' (split ▸ zeroLength_append none rest)

/-- A request in one piece. -/
theorem request_bounded_loopback : ∃ b' left taken,
    receive requestConsumer (bufferInit 16 (List.replicate 16 0) rfl) requestParserInit
      [loopbackRequest.encode] = .ok (b', taken.foldl requestParserFeed requestParserInit,
        requestIsDone (taken.foldl requestParserFeed requestParserInit).state false, left) ∧
    Bounded requestParserInit.request taken := by
  have rewound : (bufferInit 16 (List.replicate 16 0) rfl).Rewound := fun _ => rfl
  have arrives : Arrives (bufferInit 16 (List.replicate 16 0) rfl) [loopbackRequest.encode] :=
    arrives_next rewound rfl (by decide)
  obtain ⟨b', left, taken, -, received, iff⟩ :=
    request_bounded_iff requestParserInit.request rewound arrives
  exact ⟨b', left, taken, received, iff.mpr (encode_not_zero loopbackRequest [])⟩

/-- A domain of length zero: its NUL is stored at `host[-1]`, and a byte is taken for it. -/
theorem host_left : ∃ w, w = [5, 1, 0, 3, 0, 65] ∧
    (requestParse w).stores = [(.host, -1), (.host, 0)] ∧ (requestParse w).state = .destPort ∧
    addressBytes requestParserInit w = 1 ∧ announcedLength w = 0 ∧
    ¬ Bounded requestParserInit.request w :=
  ⟨_, rfl, rfl, rfl, rfl, rfl, zeroLength_unbounded ⟨0, [65], rfl⟩⟩

end

end SocksProxy
