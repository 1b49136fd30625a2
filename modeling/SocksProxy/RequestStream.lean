import SocksProxy.Request

/-!
# What the parser of the connection request makes of a stream

A stream is malformed when it leaves the parser in one of its four error states,
which no byte leaves; so does no byte leave the state of a finished request.
-/

namespace SocksProxy

open Lib

def requestParse (w : List UInt8) : RequestParser := w.foldl requestParserFeed requestParserInit

def RequestParser.InError (p : RequestParser) : Prop :=
  p.state = .error ∨ p.state = .errorUnsupportedCmd ∨ p.state = .errorUnsupportedType ∨
    p.state = .errorUnsupportedVersion

instance (p : RequestParser) : Decidable p.InError := by
  unfold RequestParser.InError
  exact inferInstance

def BadVersion (w : List UInt8) : Prop := ∃ v rest, w = v :: rest ∧ v ≠ 0x05

/-- A command other than CONNECT. -/
def BadCommand (w : List UInt8) : Prop := ∃ c rest, w = 0x05 :: c :: rest ∧ c ≠ socksReqCmdConnect

def BadType (w : List UInt8) : Prop :=
  ∃ r a rest, w = 0x05 :: socksReqCmdConnect :: r :: a :: rest ∧
    a ∉ [socksReqAddrtypeIpv4, socksReqAddrtypeDomain, socksReqAddrtypeIpv6]

/-- A domain whose length `dest_address_fqdn` refuses. -/
def BadLength (w : List UInt8) : Prop :=
  ∃ r n rest, w = 0x05 :: socksReqCmdConnect :: r :: socksReqAddrtypeDomain :: n :: rest ∧
    n > maxFqdnSize - 1

def Malformed (w : List UInt8) : Prop := BadVersion w ∨ BadCommand w ∨ BadType w ∨ BadLength w

theorem feed_error {p : RequestParser} (h : p.InError) (b : UInt8) :
    (requestParserFeed p b).InError := by
  rcases h with h | h | h | h <;> simp [requestParserFeed, h, RequestParser.InError]

theorem feeds_error {p : RequestParser} (h : p.InError) (w : List UInt8) :
    (w.foldl requestParserFeed p).InError := by
  induction w generalizing p with
  | nil => exact h
  | cons b w ih => exact ih (feed_error h b)

theorem feed_done {p : RequestParser} (h : p.state = .done) (b : UInt8) :
    (requestParserFeed p b).state = .done := by
  simp [requestParserFeed, h]

theorem feeds_done {p : RequestParser} (h : p.state = .done) (w : List UInt8) :
    (w.foldl requestParserFeed p).state = .done := by
  induction w generalizing p with
  | nil => exact h
  | cons b w ih => exact ih (feed_done h b)

/-- Past the address type nothing but a refused length is an error. -/
def RequestParser.Healthy (p : RequestParser) : Prop :=
  p.state = .destAddr ∨ p.state = .destPort ∨ p.state = .done

theorem destAddr_next (p : RequestParser) (b : UInt8) :
    (destAddr p b).2 = .destAddr ∨ (destAddr p b).2 = .destPort := by
  unfold destAddr
  by_cases complete : remainingIsDone
      (if p.request.destAddrType = socksReqAddrtypeIpv4 then
        { p.store .sinAddr p.read.toNat b with read := p.read + 1 }
      else if p.request.destAddrType = socksReqAddrtypeDomain then
        { p.store .host p.read.toNat b with read := p.read + 1 }
      else if p.request.destAddrType = socksReqAddrtypeIpv6 then
        { p.store .sin6Addr p.read.toNat b with read := p.read + 1 }
      else p) = true
  · exact Or.inr (by simp only [complete, if_true])
  · exact Or.inl (by simp only [complete, Bool.false_eq_true, if_false])

theorem destPort_next (p : RequestParser) (b : UInt8) :
    (destPort p b).2 = .destPort ∨ (destPort p b).2 = .done := by
  simp only [destPort]
  split
  · exact Or.inr rfl
  · exact Or.inl rfl

theorem feed_healthy {p : RequestParser} (h : p.Healthy) (b : UInt8) :
    (requestParserFeed p b).Healthy := by
  rcases h with h | h | h
  · have next : (requestParserFeed p b).state = (destAddr p b).2 := by simp [requestParserFeed, h]
    unfold RequestParser.Healthy
    rw [next]
    rcases destAddr_next p b with eq | eq <;> simp [eq]
  · have next : (requestParserFeed p b).state = (destPort p b).2 := by simp [requestParserFeed, h]
    unfold RequestParser.Healthy
    rw [next]
    rcases destPort_next p b with eq | eq <;> simp [eq]
  · exact Or.inr (Or.inr (feed_done h b))

theorem feeds_healthy {p : RequestParser} (h : p.Healthy) (w : List UInt8) :
    (w.foldl requestParserFeed p).Healthy := by
  induction w generalizing p with
  | nil => exact h
  | cons b w ih => exact ih (feed_healthy h b)

theorem healthy_not_error {p : RequestParser} (h : p.Healthy) : ¬ p.InError := by
  rcases h with h | h | h <;> simp [RequestParser.InError, h]

theorem feed_version (v : UInt8) :
    (requestParserFeed requestParserInit v).state =
      if v = 0x05 then .cmd else .errorUnsupportedVersion := rfl

theorem feed_cmd {p : RequestParser} (h : p.state = .cmd) (c : UInt8) :
    (requestParserFeed p c).state =
      if c = socksReqCmdConnect then .rsv else .errorUnsupportedCmd := by
  simp only [requestParserFeed, h, cmdState]
  split <;> rfl

theorem feed_rsv {p : RequestParser} (h : p.state = .rsv) (r : UInt8) :
    (requestParserFeed p r).state = .atyp := by
  simp [requestParserFeed, h]

theorem feed_atyp {p : RequestParser} (h : p.state = .atyp) (a : UInt8) :
    (requestParserFeed p a).state =
      if a = socksReqAddrtypeDomain then .destAddrFqdn
      else if a = socksReqAddrtypeIpv4 ∨ a = socksReqAddrtypeIpv6 then .destAddr
      else .errorUnsupportedType := by
  simp only [requestParserFeed, h, addressType]
  by_cases v4 : a = socksReqAddrtypeIpv4
  · subst v4
    rfl
  · by_cases domain : a = socksReqAddrtypeDomain
    · subst domain
      rfl
    · by_cases v6 : a = socksReqAddrtypeIpv6
      · subst v6
        rfl
      · simp [v4, domain, v6]

theorem feed_length {p : RequestParser} (h : p.state = .destAddrFqdn) (n : UInt8) :
    (requestParserFeed p n).state = if n > maxFqdnSize - 1 then .error else .destAddr := by
  simp only [requestParserFeed, h, destAddressFqdn]
  split <;> rfl

/-! One stage of the parser at a time, the last one first. -/

section
variable {p : RequestParser} (w : List UInt8)

theorem length_error_iff (h : p.state = .destAddrFqdn) :
    (w.foldl requestParserFeed p).InError ↔ ∃ n rest, w = n :: rest ∧ n > maxFqdnSize - 1 := by
  cases w with
  | nil => exact iff_of_false (by simp [h, RequestParser.InError]) (by simp)
  | cons n w =>
    have next := feed_length h n
    by_cases refused : n > maxFqdnSize - 1
    · rw [if_pos refused] at next
      exact iff_of_true (feeds_error (Or.inl next) w) ⟨n, w, rfl, refused⟩
    · rw [if_neg refused] at next
      refine iff_of_false (healthy_not_error (feeds_healthy (Or.inl next) w)) ?_
      rintro ⟨_, _, eq, bad⟩
      obtain ⟨rfl, -⟩ := List.cons.inj eq
      exact refused bad

theorem atyp_error_iff (h : p.state = .atyp) :
    (w.foldl requestParserFeed p).InError ↔
      (∃ a rest, w = a :: rest ∧
        a ∉ [socksReqAddrtypeIpv4, socksReqAddrtypeDomain, socksReqAddrtypeIpv6]) ∨
      ∃ n rest, w = socksReqAddrtypeDomain :: n :: rest ∧ n > maxFqdnSize - 1 := by
  cases w with
  | nil => exact iff_of_false (by simp [h, RequestParser.InError]) (by simp)
  | cons a w =>
    have next := feed_atyp h a
    by_cases domain : a = socksReqAddrtypeDomain
    · rw [if_pos domain] at next
      rw [List.foldl_cons, length_error_iff w next]
      subst domain
      simp
    · rw [if_neg domain] at next
      by_cases address : a = socksReqAddrtypeIpv4 ∨ a = socksReqAddrtypeIpv6
      · rw [if_pos address] at next
        refine iff_of_false (healthy_not_error (feeds_healthy (Or.inl next) w)) ?_
        rintro (⟨_, _, eq, other⟩ | ⟨_, _, eq, -⟩)
        · obtain ⟨rfl, -⟩ := List.cons.inj eq
          rcases address with rfl | rfl <;> exact other (by simp)
        · exact domain (List.cons.inj eq).1
      · rw [if_neg address] at next
        rw [not_or] at address
        refine iff_of_true (feeds_error (Or.inr (Or.inr (Or.inl next))) w) (Or.inl ⟨a, w, rfl, ?_⟩)
        simp [domain, address.1, address.2]

theorem cmd_error_iff (h : p.state = .cmd) :
    (w.foldl requestParserFeed p).InError ↔
      (∃ c rest, w = c :: rest ∧ c ≠ socksReqCmdConnect) ∨
      ∃ r rest, w = socksReqCmdConnect :: r :: rest ∧
        ((∃ a rest', rest = a :: rest' ∧
          a ∉ [socksReqAddrtypeIpv4, socksReqAddrtypeDomain, socksReqAddrtypeIpv6]) ∨
        ∃ n rest', rest = socksReqAddrtypeDomain :: n :: rest' ∧ n > maxFqdnSize - 1) := by
  cases w with
  | nil => exact iff_of_false (by simp [h, RequestParser.InError]) (by simp)
  | cons c w =>
    have next := feed_cmd h c
    by_cases connect : c = socksReqCmdConnect
    · rw [if_pos connect] at next
      subst connect
      cases w with
      | nil => exact iff_of_false (by simp [next, RequestParser.InError]) (by simp)
      | cons r w =>
        rw [List.foldl_cons, List.foldl_cons, atyp_error_iff w (feed_rsv next r)]
        constructor
        · exact fun bad => Or.inr ⟨r, w, rfl, bad⟩
        · rintro (⟨_, _, eq, other⟩ | ⟨_, _, eq, bad⟩)
          · exact absurd (List.cons.inj eq).1.symm other
          · obtain ⟨-, eq⟩ := List.cons.inj eq
            obtain ⟨-, rfl⟩ := List.cons.inj eq
            exact bad
    · rw [if_neg connect] at next
      exact iff_of_true (feeds_error (Or.inr (Or.inl next)) w) (Or.inl ⟨c, w, rfl, connect⟩)

end

/-- A stream is malformed exactly when it leaves the parser in an error state. -/
theorem parse_error_iff (w : List UInt8) : (requestParse w).InError ↔ Malformed w := by
  unfold requestParse Malformed BadVersion BadCommand BadType BadLength
  cases w with
  | nil => exact iff_of_false (by simp [requestParserInit, RequestParser.InError]) (by simp)
  | cons v w =>
    have next := feed_version v
    by_cases socks : v = 0x05
    · rw [if_pos socks] at next
      subst socks
      rw [List.foldl_cons, cmd_error_iff w next]
      constructor
      · rintro (⟨c, rest, rfl, other⟩ | ⟨r, rest, rfl, ⟨a, rest', rfl, bad⟩ | ⟨n, rest', rfl, bad⟩⟩)
        · exact Or.inr (Or.inl ⟨c, rest, rfl, other⟩)
        · exact Or.inr (Or.inr (Or.inl ⟨r, a, rest', rfl, bad⟩))
        · exact Or.inr (Or.inr (Or.inr ⟨r, n, rest', rfl, bad⟩))
      · rintro (⟨v, rest, eq, other⟩ | ⟨c, rest, eq, other⟩ | ⟨r, a, rest, eq, bad⟩ |
          ⟨r, n, rest, eq, bad⟩) <;> obtain ⟨same, rfl⟩ := List.cons.inj eq
        · exact absurd same.symm other
        · exact Or.inl ⟨c, rest, rfl, other⟩
        · exact Or.inr ⟨r, _, rfl, Or.inl ⟨a, rest, rfl, bad⟩⟩
        · exact Or.inr ⟨r, _, rfl, Or.inr ⟨n, rest, rfl, bad⟩⟩
    · rw [if_neg socks] at next
      exact iff_of_true (feeds_error (Or.inr (Or.inr (Or.inr next))) w) (Or.inl ⟨v, w, rfl, socks⟩)

theorem malformed_append {w : List UInt8} (h : Malformed w) (more : List UInt8) :
    Malformed (w ++ more) := by
  rw [← parse_error_iff] at h ⊢
  unfold requestParse at h ⊢
  rw [List.foldl_append]
  exact feeds_error h more

theorem done_not_malformed {fed : List UInt8} (h : (requestParse fed).state = .done)
    (rest : List UInt8) : ¬ Malformed (fed ++ rest) := by
  rw [← parse_error_iff]
  unfold requestParse at h ⊢
  rw [List.foldl_append]
  exact healthy_not_error (Or.inr (Or.inr (feeds_done h rest)))

theorem parse_fed {fed bytes rest : List UInt8} {p : RequestParser}
    (h : feedUntil (fun p byte => .ok (requestParserFeed p byte))
      (fun p => requestIsDone p.state false) (requestParse fed) bytes = .ok (p, rest)) :
    ∃ more, bytes = more ++ rest ∧ p = requestParse (fed ++ more) := by
  obtain ⟨more, split, fedAll, -⟩ := feedUntil_consumed h
  refine ⟨more, split, ?_⟩
  rw [feedAll_total] at fedAll
  unfold requestParse at fedAll ⊢
  rw [List.foldl_append]
  exact (Except.ok.inj fedAll).symm

/-! ## What a finished request asks for -/

/-- The request is a CONNECT, as far as it was read. -/
structure RequestParser.Supported (p : RequestParser) : Prop where
  cmd : p.state ≠ .version → p.state ≠ .cmd → ¬ p.InError → p.request.cmd = socksReqCmdConnect
  type : p.state = .destAddrFqdn ∨ p.Healthy → p.request.destAddrType ∈
    [socksReqAddrtypeIpv4, socksReqAddrtypeDomain, socksReqAddrtypeIpv6]

theorem setPort_request (p : RequestParser) :
    (setPort p).request.cmd = p.request.cmd ∧
      (setPort p).request.destAddrType = p.request.destAddrType := by
  unfold setPort
  split <;> exact ⟨rfl, rfl⟩

theorem destAddr_request (p : RequestParser) (b : UInt8) :
    (destAddr p b).1.request.cmd = p.request.cmd ∧
      (destAddr p b).1.request.destAddrType = p.request.destAddrType := by
  unfold destAddr
  constructor <;> simp only <;> split <;> split <;> (try split) <;> (try split) <;> rfl

theorem destPort_request (p : RequestParser) (b : UInt8) :
    (destPort p b).1.request.cmd = p.request.cmd ∧
      (destPort p b).1.request.destAddrType = p.request.destAddrType := by
  simp only [destPort]
  split
  · exact setPort_request _
  · exact ⟨rfl, rfl⟩

theorem feed_supported {p : RequestParser} (h : p.Supported) (b : UInt8) :
    (requestParserFeed p b).Supported := by
  cases state : p.state with
  | version =>
    have next : (requestParserFeed p b).state = versionState b := by simp [requestParserFeed, state]
    constructor
    · intro _ not healthy
      simp only [RequestParser.InError, next, versionState] at not healthy
      split at healthy <;> simp_all
    · rw [RequestParser.Healthy, next, versionState]
      split <;> simp
  | cmd =>
    have next := feed_cmd state b
    by_cases connect : b = socksReqCmdConnect
    · rw [if_pos connect] at next
      refine ⟨fun _ _ _ => ?_, ?_⟩
      · simp [requestParserFeed, state, cmdState, connect]
      · simp [RequestParser.Healthy, next]
    · rw [if_neg connect] at next
      refine ⟨fun _ _ healthy => ?_, ?_⟩
      · exact absurd (Or.inr (Or.inl next)) healthy
      · simp [RequestParser.Healthy, next]
  | rsv =>
    have next := feed_rsv state b
    have cmd := h.cmd (by simp [state]) (by simp [state]) (by simp [RequestParser.InError, state])
    refine ⟨fun _ _ _ => ?_, ?_⟩
    · simpa [requestParserFeed, state] using cmd
    · simp [RequestParser.Healthy, next]
  | atyp =>
    have cmd := h.cmd (by simp [state]) (by simp [state]) (by simp [RequestParser.InError, state])
    have next := feed_atyp state b
    have same : (requestParserFeed p b).request.cmd = p.request.cmd ∧
        (requestParserFeed p b).request.destAddrType = b := by
      simp only [requestParserFeed, state, addressType]
      split
      · exact ⟨rfl, rfl⟩
      · split
        · exact ⟨rfl, rfl⟩
        · split <;> exact ⟨rfl, rfl⟩
    refine ⟨fun _ _ _ => same.1.trans cmd, fun past => ?_⟩
    rw [same.2]
    rw [RequestParser.Healthy, next] at past
    by_cases domain : b = socksReqAddrtypeDomain
    · simp [domain]
    · rw [if_neg domain] at past
      by_cases address : b = socksReqAddrtypeIpv4 ∨ b = socksReqAddrtypeIpv6
      · rcases address with rfl | rfl <;> simp
      · rw [if_neg address] at past
        simp at past
  | destAddrFqdn =>
    have cmd := h.cmd (by simp [state]) (by simp [state]) (by simp [RequestParser.InError, state])
    have type := h.type (Or.inl state)
    have same : (requestParserFeed p b).request.cmd = p.request.cmd ∧
        (requestParserFeed p b).request.destAddrType = p.request.destAddrType := by
      simp only [requestParserFeed, state, destAddressFqdn]
      split <;> exact ⟨rfl, rfl⟩
    exact ⟨fun _ _ _ => same.1.trans cmd, fun _ => by rw [same.2]; exact type⟩
  | destAddr =>
    have cmd := h.cmd (by simp [state]) (by simp [state]) (by simp [RequestParser.InError, state])
    have type := h.type (Or.inr (Or.inl state))
    have same : (requestParserFeed p b).request = (destAddr p b).1.request := by
      simp [requestParserFeed, state]
    obtain ⟨sameCmd, sameType⟩ := destAddr_request p b
    rw [← same] at sameCmd sameType
    exact ⟨fun _ _ _ => sameCmd.trans cmd, fun _ => by rw [sameType]; exact type⟩
  | destPort =>
    have cmd := h.cmd (by simp [state]) (by simp [state]) (by simp [RequestParser.InError, state])
    have type := h.type (Or.inr (Or.inr (Or.inl state)))
    have same : (requestParserFeed p b).request = (destPort p b).1.request := by
      simp [requestParserFeed, state]
    obtain ⟨sameCmd, sameType⟩ := destPort_request p b
    rw [← same] at sameCmd sameType
    exact ⟨fun _ _ _ => sameCmd.trans cmd, fun _ => by rw [sameType]; exact type⟩
  | done | error | errorUnsupportedCmd | errorUnsupportedType | errorUnsupportedVersion =>
    have same : requestParserFeed p b = p := by
      simp only [requestParserFeed, state]
      rw [← state]
    rw [same]
    exact h

/-- A request is only finished if it is supported. -/
theorem parse_supported {w : List UInt8} (h : (requestParse w).state = .done) :
    (requestParse w).request.cmd = socksReqCmdConnect ∧
      (requestParse w).request.destAddrType ∈
        [socksReqAddrtypeIpv4, socksReqAddrtypeDomain, socksReqAddrtypeIpv6] := by
  have feeds : ∀ (w : List UInt8) (p : RequestParser), p.Supported →
      (w.foldl requestParserFeed p).Supported := by
    intro w
    induction w with
    | nil => exact fun p start => start
    | cons b w ih => exact fun p start => ih _ (feed_supported start b)
  have start : requestParserInit.Supported :=
    ⟨fun not => absurd rfl not, by simp [RequestParser.Healthy, requestParserInit]⟩
  have supported : (requestParse w).Supported := feeds w _ start
  exact ⟨supported.cmd (by rw [h]; simp) (by rw [h]; simp) (by simp [RequestParser.InError, h]),
    supported.type (Or.inr (Or.inr (Or.inr h)))⟩

end SocksProxy
