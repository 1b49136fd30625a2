import SocksProxy.RequestWire

/-!
# Requests are decoded exactly, and within their fields

A request is decoded to itself on its last byte, whatever follows it and however
the stream is cut; and what is decoded was a request. Both fail for a domain of
length zero, which `dest_address_fqdn` accepts: it stores before the host, and
takes one byte for an address of none.
-/

namespace SocksProxy

open Lib

/-- `request_consume` as `request_read` calls it. -/
def requestConsumer : Consumer RequestParser := fun b p =>
  requestConsume b p false >>= fun r => .ok (r.1, r.2, requestIsDone r.2.state false)

section
variable {p : RequestParser} {q : Request} {kind kind' : AddressKind} {r r' : ConnectRequest}
  {w x y rest suffix : List UInt8} {rsv rsv' : UInt8}

/-! ## Requests are a prefix code -/

theorem preamble_inj (same : preamble rsv kind ++ x = preamble rsv' kind' ++ y) :
    rsv = rsv' ∧ kind = kind' ∧ x = y := by
  simp only [preamble, List.cons_append, List.cons.injEq, true_and] at same
  obtain ⟨rfl, same⟩ := same
  refine ⟨rfl, ?_⟩
  cases kind <;> cases kind' <;> simp_all [AddressKind.announce, socksReqAddrtypeIpv4,
    socksReqAddrtypeIpv6, socksReqAddrtypeDomain]

theorem encode_inj (same : r.encode ++ x = r'.encode ++ y) : r = r' ∧ x = y := by
  obtain ⟨rsv, kind, addr, port, allowed, addrLength, portLength⟩ := r
  obtain ⟨rsv', kind', addr', port', allowed', addrLength', portLength'⟩ := r'
  simp only [ConnectRequest.encode, List.append_assoc] at same
  obtain ⟨rfl, rfl, fields⟩ := preamble_inj same
  obtain ⟨rfl, port⟩ := List.append_inj fields (addrLength.trans addrLength'.symm)
  obtain ⟨rfl, rfl⟩ := List.append_inj port (portLength.trans portLength'.symm)
  exact ⟨rfl, rfl⟩

theorem encode_length (r : ConnectRequest) : 7 ≤ r.encode.length := by
  have bounds := r.allowed.bounds
  have addr := r.addr_length
  have port := r.port_length
  have announced : 1 ≤ r.kind.announce.length := by
    cases r.kind <;> simp [AddressKind.announce]
  simp only [ConnectRequest.encode, preamble, List.length_append, List.length_cons]
  omega

theorem preamble_not_malformed (allowed : kind.Allowed) : ¬ Malformed (preamble rsv kind ++ x) := by
  simp only [preamble, List.cons_append]
  rintro (⟨v, tail, eq, bad⟩ | ⟨c, tail, eq, bad⟩ | ⟨s, a, tail, eq, bad⟩ | ⟨s, n, tail, eq, bad⟩)
  · exact bad (List.cons.inj eq).1.symm
  · simp only [List.cons.injEq, true_and] at eq
    exact bad eq.1.symm
  · simp only [List.cons.injEq, true_and] at eq
    obtain ⟨-, eq⟩ := eq
    cases kind with
    | ipv4 => simp_all [AddressKind.announce]
    | ipv6 => simp_all [AddressKind.announce]
    | domain n => simp_all [AddressKind.announce]
  · simp only [List.cons.injEq, true_and] at eq
    obtain ⟨-, eq⟩ := eq
    cases kind with
    | ipv4 => simp [AddressKind.announce, socksReqAddrtypeIpv4, socksReqAddrtypeDomain] at eq
    | ipv6 => simp [AddressKind.announce, socksReqAddrtypeIpv6, socksReqAddrtypeDomain] at eq
    | domain length =>
      simp only [AddressKind.announce, List.cons_append, List.cons.injEq, true_and] at eq
      obtain ⟨rfl, -⟩ := eq
      have few : length ≤ maxFqdnSize - 1 := UInt8.le_iff_toNat_le.mpr allowed.2
      exact absurd bad (UInt8.not_lt.mpr few)

theorem encode_not_malformed (r : ConnectRequest) (rest : List UInt8) :
    ¬ Malformed (r.encode ++ rest) := by
  rw [ConnectRequest.encode, List.append_assoc]
  exact preamble_not_malformed r.allowed

theorem encode_not_zero (r : ConnectRequest) (rest : List UInt8) :
    ¬ ZeroLength (r.encode ++ rest) := by
  rintro ⟨rsv, tail, eq⟩
  rw [ConnectRequest.encode, List.append_assoc] at eq
  obtain ⟨-, kind, -⟩ := preamble_inj eq
  have allowed := r.allowed
  rw [kind] at allowed
  exact absurd allowed.1 (by decide)

theorem zeroLength_append (h : ZeroLength w) (more : List UInt8) : ZeroLength (w ++ more) := by
  obtain ⟨rsv, rest, rfl⟩ := h
  exact ⟨rsv, rest ++ more, List.append_assoc _ _ _⟩

/-- Behind a request the parser is finished with it. -/
theorem encode_finished (h : Stage w p) (split : w = r.encode ++ rest) : Finished p r := by
  have long := encode_length r
  have length := congrArg List.length split
  rw [List.length_append] at length
  have bounds := r.allowed.bounds
  have addrLength := r.addr_length
  have portLength := r.port_length
  cases h with
  | version => simp at length; omega
  | cmd => simp at length; omega
  | rsv => simp at length; omega
  | atyp => simp at length; omega
  | fqdn => simp at length; omega
  | address allowed more reading =>
    rw [ConnectRequest.encode, List.append_assoc] at split
    obtain ⟨-, rfl, part⟩ := preamble_inj split
    have parts := congrArg List.length part
    simp only [List.length_append] at parts
    omega
  | port allowed whole more reading =>
    rw [ConnectRequest.encode, List.append_assoc] at split
    obtain ⟨-, rfl, part⟩ := preamble_inj split
    have parts := congrArg List.length part
    simp only [List.length_append] at parts
    omega
  | done finished =>
    obtain ⟨rfl, -⟩ := encode_inj split
    exact finished
  | refused error fresh malformed => exact absurd (split ▸ malformed) (encode_not_malformed r rest)
  | zero length => exact absurd (split ▸ length) (encode_not_zero r rest)

theorem encode_done (q : Request) (r : ConnectRequest) :
    (r.encode.foldl requestParserFeed (freshParser q)).state = .done :=
  (encode_finished (parse_stage q r.encode) (List.append_nil _).symm).state

/-- A finished request was on the wire. -/
theorem finished_encode (h : Stage w p) (state : p.state = .done) :
    (∃ r rest, w = r.encode ++ rest ∧ Finished p r) ∨ ZeroLength w := by
  cases h with
  | version other => rw [state] at other; cases other
  | cmd other => rw [state] at other; cases other
  | rsv other => rw [state] at other; cases other
  | atyp other => rw [state] at other; cases other
  | fqdn other => rw [state] at other; cases other
  | address allowed more reading => have other := reading.state; rw [state] at other; cases other
  | port allowed whole more reading => have other := reading.state; rw [state] at other; cases other
  | done finished => exact Or.inl ⟨_, _, rfl, finished⟩
  | refused error => exact absurd error (by simp [RequestParser.InError, state])
  | zero length => exact Or.inr length

/-! ## What is decoded -/

theorem bytesAt_eq {offset : Int} {bytes : List UInt8}
    (stored : ∀ (i : Nat) b, bytes[i]? = some b → q.memory (offset + i) = b) :
    q.bytesAt offset bytes.length = bytes := by
  apply List.ext_getElem (by simp [Request.bytesAt])
  intro i low low'
  simp only [Request.bytesAt, List.getElem_map, List.getElem_range]
  exact stored i _ (List.getElem?_eq_getElem low')

theorem Finished.decoded (h : Finished p r) : Decoded p.request r := by
  have length := r.addr_length
  have bytes := bytesAt_eq h.holds.bytes
  refine ⟨h.holds.cmd, h.holds.type, ?_, h.port⟩
  cases kind : r.kind with
  | ipv4 =>
    rw [length, kind] at bytes
    exact ⟨bytes, h.sinPort (Or.inl kind)⟩
  | ipv6 =>
    rw [length, kind] at bytes
    exact ⟨bytes, h.sinPort (Or.inr kind)⟩
  | domain n =>
    have size := h.holds.size n kind
    rw [length, kind] at bytes
    refine ⟨?_, size⟩
    rw [Request.host, size]
    exact bytes

/-! ## Every fragmentation -/

theorem requestConsumer_consumes : Consumes requestConsumer
    (fun p byte => .ok (requestParserFeed p byte)) (fun p => requestIsDone p.state false)
    (fun _ => True) :=
  drain_consumes fun _ _ => rfl

@[simp] theorem requestIsDone_iff {state : RequestState} :
    requestIsDone state false = true ↔ state = .done := by
  simp [requestIsDone]

/-- The loop over a stream stops with the stage of what it took, and no sooner than it is done. -/
theorem request_loop (h : feedUntil (fun p byte => .ok (requestParserFeed p byte))
      (fun p => requestIsDone p.state false) (freshParser q) w = .ok (p, rest)) :
    ∃ taken, w = taken ++ rest ∧ p = taken.foldl requestParserFeed (freshParser q) ∧
      (p.state = .done ∨ rest = []) ∧ ∀ u v, taken = u ++ v → v ≠ [] →
        (u.foldl requestParserFeed (freshParser q)).state ≠ .done := by
  obtain ⟨taken, split, fed, ends⟩ := feedUntil_consumed h
  obtain ⟨taken', split', running⟩ := feedUntil_running h
  obtain rfl : taken = taken' := List.append_cancel_right (split.symm.trans split')
  rw [feedAll_total] at fed
  refine ⟨taken, split, (Except.ok.inj fed).symm, ?_, fun u v cut some' => ?_⟩
  · exact ends.imp_left requestIsDone_iff.mp
  · by_cases none : u = []
    · subst none
      simp [freshParser, requestParserInit]
    · obtain ⟨t, fed', going⟩ := running u v cut none some'
      rw [feedAll_total] at fed'
      obtain rfl := Except.ok.inj fed'
      intro state
      exact absurd (requestIsDone_iff.mpr state) (Bool.eq_false_iff.mp going)

/-- What the loop took when it is done: a request, or a domain of length zero with more. -/
theorem taken_request {taken : List UInt8}
    (state : (taken.foldl requestParserFeed (freshParser q)).state = .done)
    (first : ∀ u v, taken = u ++ v → v ≠ [] →
      (u.foldl requestParserFeed (freshParser q)).state ≠ .done) :
    (∃ r, taken = r.encode ∧ Finished (taken.foldl requestParserFeed (freshParser q)) r) ∨
      ZeroLength taken := by
  rcases finished_encode (parse_stage q taken) state with ⟨r, rest, split, finished⟩ | zero
  · by_cases exact' : rest = []
    · rw [exact', List.append_nil] at split
      exact Or.inl ⟨r, split, finished⟩
    · exact absurd (encode_done q r) (first _ _ split exact')
  · exact Or.inr zero

/-- A CONNECT request is decoded exactly on its last byte, whatever follows and however the
stream is cut; without a domain of length zero, only such requests are. -/
theorem request_decoded (q : Request) {b : Buffer} {chunks : List (List UInt8)}
    (rewound : b.Rewound) (arrives : Arrives b chunks) :
    ∃ b' p left, receive requestConsumer b (freshParser q) chunks =
        .ok (b', p, decide (p.state = .done), left) ∧ left <:+ chunks ∧
      (∀ (r : ConnectRequest) suffix, bufferReadPtr b ++ chunks.flatten = r.encode ++ suffix →
        p.state = .done ∧ bufferReadPtr b' ++ left.flatten = suffix ∧ Decoded p.request r) ∧
      (∀ (r : ConnectRequest) unread, unread ≠ [] → bufferReadPtr b ++ chunks.flatten ++ unread = r.encode →
        p.state ≠ .done ∧ bufferReadPtr b' ++ left.flatten = []) ∧
      (p.state = .done → ∃ consumed,
        bufferReadPtr b ++ chunks.flatten = consumed ++ (bufferReadPtr b' ++ left.flatten) ∧
        (ZeroLength consumed ∨ ∃ r, consumed = r.encode ∧ Decoded p.request r)) := by
  obtain ⟨p, rest, b', left, fed, received, -, unread, suffix, -⟩ :=
    receive_spec requestConsumer_consumes (s := freshParser q) trivial rfl rewound arrives
  obtain ⟨taken, split, rfl, ends, first⟩ := request_loop fed
  have reported (state : RequestState) : requestIsDone state false = decide (state = .done) := by
    rw [requestIsDone, Bool.not_false, Bool.and_true]
  rw [reported] at received
  refine ⟨b', _, left, received, suffix, ?_, ?_, ?_⟩
  · intro r more whole
    rw [split] at whole
    rcases ends with state | none
    · rcases taken_request state first with ⟨r', rfl, finished⟩ | zero
      · obtain ⟨rfl, rfl⟩ := encode_inj whole
        exact ⟨state, unread, finished.decoded⟩
      · exact absurd (whole ▸ zeroLength_append zero rest) (encode_not_zero r more)
    · rw [none, List.append_nil] at whole
      have finished := encode_finished (parse_stage q taken) whole
      by_cases exact' : more = []
      · rw [unread, none, exact']
        exact ⟨finished.state, rfl, finished.decoded⟩
      · exact absurd (encode_done q r) (first _ _ whole exact')
  · intro r missing some' whole
    rw [split, List.append_assoc] at whole
    have going : (taken.foldl requestParserFeed (freshParser q)).state ≠ .done := by
      intro state
      rcases taken_request state first with ⟨r', rfl, -⟩ | zero
      · obtain ⟨-, none⟩ := encode_inj (whole.trans (List.append_nil _).symm)
        exact some' (List.append_eq_nil_iff.mp none).2
      · have cut := zeroLength_append zero (rest ++ missing)
        rw [whole, ← List.append_nil r.encode] at cut
        exact encode_not_zero r [] cut
    exact ⟨going, unread.trans (ends.resolve_left going)⟩
  · intro state
    refine ⟨taken, by rw [unread]; exact split, ?_⟩
    rcases taken_request state first with ⟨r, same, finished⟩ | zero
    · exact Or.inr ⟨r, same, finished.decoded⟩
    · exact Or.inl zero

/-- A request for port 80 of 127.0.0.1. -/
def loopbackRequest : ConnectRequest :=
  ⟨0x00, .ipv4, [127, 0, 0, 1], [0, 80], trivial, rfl, rfl⟩

/-- The request comes in two pieces, the second with a byte more. -/
theorem request_decoded_loopback : ∃ b' p left,
    receive requestConsumer (bufferInit 16 (List.replicate 16 0) rfl) requestParserInit
      [[5, 1, 0], [1, 127, 0, 0, 1, 0, 80, 9]] = .ok (b', p, decide (p.state = .done), left) ∧
    p.state = .done ∧ bufferReadPtr b' ++ left.flatten = [9] ∧
    Decoded p.request loopbackRequest := by
  have rewound : (bufferInit 16 (List.replicate 16 0) rfl).Rewound := fun _ => rfl
  have arrives : Arrives (bufferInit 16 (List.replicate 16 0) rfl)
      [[5, 1, 0], [1, 127, 0, 0, 1, 0, 80, 9]] := arrives_next rewound rfl (by decide)
  obtain ⟨b', p, left, received, -, decoded, -, -⟩ :=
    request_decoded requestParserInit.request rewound arrives
  exact ⟨b', p, left, received, decoded loopbackRequest [9] rfl⟩

end

end SocksProxy
