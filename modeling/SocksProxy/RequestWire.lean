import Mathlib.Data.List.Basic
import SocksProxy.Chunks
import SocksProxy.RequestStream

/-!
# The CONNECT request on the wire

`Stage` says, for the bytes that were fed, where the parser of the request is and
what it has stored: `parse_stage` holds of every stream. A stream that announces
a domain of length zero is a stage of its own, about which nothing is said.
-/

namespace SocksProxy

open Lib

/-! ## Requests -/

/-- What announces an address: its type and, for a domain, its length. -/
inductive AddressKind
  | ipv4
  | ipv6
  | domain (length : UInt8)
  deriving DecidableEq, Repr

namespace AddressKind

def code : AddressKind → UInt8
  | ipv4 => socksReqAddrtypeIpv4
  | ipv6 => socksReqAddrtypeIpv6
  | domain _ => socksReqAddrtypeDomain

/-- The bytes of the address that are announced. -/
def length : AddressKind → Nat
  | ipv4 => 4
  | ipv6 => 16
  | domain n => n.toNat

def announce : AddressKind → List UInt8
  | ipv4 => [socksReqAddrtypeIpv4]
  | ipv6 => [socksReqAddrtypeIpv6]
  | domain n => [socksReqAddrtypeDomain, n]

def target : AddressKind → StoreTarget
  | ipv4 => .sinAddr
  | ipv6 => .sin6Addr
  | domain _ => .host

/-- A domain has from 1 to 254 bytes. -/
def Allowed : AddressKind → Prop
  | ipv4 | ipv6 => True
  | domain n => 1 ≤ n.toNat ∧ n.toNat ≤ 254

/-- The store of the NUL of a domain, which comes before the domain is read. -/
def terminator : AddressKind → List (StoreTarget × Int)
  | ipv4 | ipv6 => []
  | domain n => [(.host, (n.toNat : Int) - 1)]

end AddressKind

structure ConnectRequest where
  rsv : UInt8
  kind : AddressKind
  addr : List UInt8
  port : List UInt8
  allowed : kind.Allowed
  addr_length : addr.length = kind.length
  port_length : port.length = 2

/-- The bytes before the address. -/
def preamble (rsv : UInt8) (kind : AddressKind) : List UInt8 :=
  0x05 :: socksReqCmdConnect :: rsv :: kind.announce

def ConnectRequest.encode (r : ConnectRequest) : List UInt8 :=
  preamble r.rsv r.kind ++ (r.addr ++ r.port)

/-- A domain of length zero is announced. -/
def ZeroLength (w : List UInt8) : Prop :=
  ∃ rsv rest, w = preamble rsv (.domain 0) ++ rest

/-- The stored request is the request on the wire. -/
structure Decoded (q : Request) (r : ConnectRequest) : Prop where
  cmd : q.cmd = socksReqCmdConnect
  type : q.destAddrType = r.kind.code
  address : match r.kind with
    | .ipv4 => q.sinAddr = r.addr ∧ q.sinPort = r.port
    | .ipv6 => q.sin6Addr = r.addr ∧ q.sinPort = r.port
    | .domain n => q.host = r.addr ∧ q.fqdnSize = n.toNat
  port : q.destPort = r.port

/-! ## The stages of the parser -/

/-- A parser as `request_parser_init` leaves it; its request is what `malloc` gave. -/
def freshParser (q : Request) : RequestParser := { requestParserInit with request := q }

/-- The stores of `n` bytes one after the other. -/
def storesTo (t : StoreTarget) (n : Nat) : List (StoreTarget × Int) :=
  (List.range n).map fun (i : Nat) => (t, (i : Int))

/-- The announced address, of which `part` has been stored. -/
structure Holds (q : Request) (kind : AddressKind) (part : List UInt8) : Prop where
  cmd : q.cmd = socksReqCmdConnect
  type : q.destAddrType = kind.code
  size : ∀ n, kind = .domain n → q.fqdnSize = n.toNat
  bytes : ∀ (i : Nat) b, part[i]? = some b → q.memory (kind.target.offset + i) = b

structure InAddress (p : RequestParser) (kind : AddressKind) (part : List UInt8) : Prop where
  state : p.state = .destAddr
  holds : Holds p.request kind part
  read : p.read.toNat = part.length
  remaining : p.remaining.toNat = kind.length
  stores : p.stores = kind.terminator ++ storesTo kind.target part.length

structure InPort (p : RequestParser) (kind : AddressKind) (addr part : List UInt8) : Prop where
  state : p.state = .destPort
  holds : Holds p.request kind addr
  read : p.read.toNat = part.length
  remaining : p.remaining = 2
  port : p.request.destPort.length = 2 ∧ p.request.destPort.take part.length = part
  stores : p.stores = kind.terminator ++ storesTo kind.target kind.length ++
    storesTo .destPort part.length

structure Finished (p : RequestParser) (r : ConnectRequest) : Prop where
  state : p.state = .done
  holds : Holds p.request r.kind r.addr
  read : p.read = 2
  remaining : p.remaining = 2
  port : p.request.destPort = r.port
  sinPort : r.kind = .ipv4 ∨ r.kind = .ipv6 → p.request.sinPort = r.port
  stores : p.stores = r.kind.terminator ++ storesTo r.kind.target r.kind.length ++
    storesTo .destPort 2

/-- Nothing has been counted or stored yet. -/
structure Untouched (p : RequestParser) : Prop where
  read : p.read = 0
  remaining : p.remaining = 0
  stores : p.stores = []

inductive Stage : List UInt8 → RequestParser → Prop
  | version {p : RequestParser} : p.state = .version → Untouched p → Stage [] p
  | cmd {p : RequestParser} : p.state = .cmd → Untouched p → Stage [0x05] p
  | rsv {p : RequestParser} : p.state = .rsv → Untouched p →
      p.request.cmd = socksReqCmdConnect → Stage [0x05, socksReqCmdConnect] p
  | atyp {p : RequestParser} {rsv : UInt8} : p.state = .atyp → Untouched p →
      p.request.cmd = socksReqCmdConnect → Stage [0x05, socksReqCmdConnect, rsv] p
  | fqdn {p : RequestParser} {rsv : UInt8} : p.state = .destAddrFqdn → Untouched p →
      p.request.cmd = socksReqCmdConnect → p.request.destAddrType = socksReqAddrtypeDomain →
      Stage [0x05, socksReqCmdConnect, rsv, socksReqAddrtypeDomain] p
  | address {p : RequestParser} {rsv : UInt8} {kind : AddressKind} {part : List UInt8} :
      kind.Allowed → part.length < kind.length → InAddress p kind part →
      Stage (preamble rsv kind ++ part) p
  | port {p : RequestParser} {rsv : UInt8} {kind : AddressKind} {addr part : List UInt8} :
      kind.Allowed → addr.length = kind.length → part.length < 2 → InPort p kind addr part →
      Stage (preamble rsv kind ++ (addr ++ part)) p
  | done {p : RequestParser} {r : ConnectRequest} {rest : List UInt8} : Finished p r →
      Stage (r.encode ++ rest) p
  | refused {p : RequestParser} {w : List UInt8} : p.InError → Untouched p → Malformed w → Stage w p
  | zero {p : RequestParser} {w : List UInt8} : ZeroLength w → Stage w p

section
variable {p : RequestParser} {q : Request} {kind : AddressKind} {addr part w : List UInt8}
  {rsv : UInt8}

/-! ## Reading the address -/

@[simp] theorem storesTo_zero (t : StoreTarget) : storesTo t 0 = [] := rfl

theorem storesTo_succ (t : StoreTarget) (n : Nat) :
    storesTo t (n + 1) = storesTo t n ++ [(t, (n : Int))] := by
  simp [storesTo, List.range_succ]

theorem AddressKind.Allowed.bounds (h : kind.Allowed) : 1 ≤ kind.length ∧ kind.length ≤ 254 := by
  cases kind with
  | ipv4 => decide
  | ipv6 => decide
  | domain n => exact h

/-- One more byte of the address is stored behind the others. -/
theorem Holds.store (h : Holds q kind part) (b : UInt8) :
    Holds { q with memory := Function.update q.memory (kind.target.offset + part.length) b } kind
      (part ++ [b]) := by
  refine ⟨h.cmd, h.type, h.size, fun i c at' => ?_⟩
  rcases Nat.lt_trichotomy i part.length with before | rfl | after
  · rw [List.getElem?_append_left before] at at'
    have apart : kind.target.offset + (i : Int) ≠ kind.target.offset + part.length := by omega
    exact (Function.update_of_ne apart _ _).trans (h.bytes i c at')
  · rw [List.getElem?_concat_length] at at'
    exact (Function.update_self _ _ _).trans (Option.some.inj at')
  · rw [List.getElem?_eq_none (by simp; omega)] at at'
    cases at'

/-- The byte goes to the announced address. -/
def RequestParser.put (p : RequestParser) (kind : AddressKind) (b : UInt8) : RequestParser :=
  { p.store kind.target p.read.toNat b with read := p.read + 1 }

/-- The two bytes of the port come next. -/
def RequestParser.toPort (p : RequestParser) : RequestParser :=
  { remainingSet p 2 with request := { p.request with destPort := [0, 0] } }

theorem destAddr_kind (type : p.request.destAddrType = kind.code) (b : UInt8) :
    destAddr p b =
      if remainingIsDone (p.put kind b) then ((p.put kind b).toPort, .destPort)
      else (p.put kind b, .destAddr) := by
  unfold destAddr
  cases kind <;> simp only [type, AddressKind.code] <;> rfl

theorem read_next {n : UInt8} (small : n.toNat < 255) : (n + 1).toNat = n.toNat + 1 := by
  rw [UInt8.toNat_add, UInt8.toNat_one, Nat.mod_eq_of_lt (by omega)]

/-- A byte of the address; the last one is followed by the port. -/
theorem address_feed (allowed : kind.Allowed) (more : part.length < kind.length)
    (h : InAddress p kind part) (b : UInt8) :
    (part.length + 1 < kind.length ∧ InAddress (requestParserFeed p b) kind (part ++ [b])) ∨
    (part.length + 1 = kind.length ∧ InPort (requestParserFeed p b) kind (part ++ [b]) []) := by
  have bounds := allowed.bounds
  have next : (p.put kind b).read.toNat = part.length + 1 := by
    change (p.read + 1).toNat = _
    rw [read_next (by rw [h.read]; omega), h.read]
  have holds : Holds (p.put kind b).request kind (part ++ [b]) := by
    have placed := h.holds.store b
    rw [← h.read] at placed
    exact placed
  have stores : (p.put kind b).stores =
      kind.terminator ++ storesTo kind.target (part.length + 1) := by
    rw [storesTo_succ, ← List.append_assoc, ← h.stores, ← h.read]
    rfl
  have finished : remainingIsDone (p.put kind b) = decide (kind.length ≤ part.length + 1) := by
    apply decide_eq_decide.mpr
    rw [← h.remaining, ← next]
    exact UInt8.le_iff_toNat_le
  have fed : requestParserFeed p b = { (destAddr p b).1 with state := (destAddr p b).2 } := by
    simp only [requestParserFeed, h.state]
  rw [fed, destAddr_kind h.holds.type, finished]
  have length : (part ++ [b]).length = part.length + 1 := by simp
  by_cases last : kind.length ≤ part.length + 1
  · rw [decide_eq_true last, if_pos rfl]
    have ended : part.length + 1 = kind.length := by omega
    refine Or.inr ⟨ended, rfl, ⟨holds.cmd, holds.type, holds.size, holds.bytes⟩, rfl, rfl,
      ⟨rfl, rfl⟩, ?_⟩
    change (p.put kind b).stores = _
    rw [stores, ended]
    simp
  · rw [decide_eq_false last]
    refine Or.inl ⟨by omega, rfl, holds, ?_, h.remaining, ?_⟩
    · rw [length]
      exact next
    · rw [length]
      exact stores

/-! ## Reading the port -/

/-- The copy of the port does not touch the address. -/
theorem setPort_holds (h : Holds p.request kind addr) :
    Holds (setPort p).request kind addr ∧ (setPort p).request.destPort = p.request.destPort ∧
      (kind = .ipv4 ∨ kind = .ipv6 → (setPort p).request.sinPort =
        [p.request.destPort.getD 0 0, p.request.destPort.getD 1 0]) := by
  unfold setPort
  cases kind with
  | domain n =>
    have type : p.request.destAddrType = socksReqAddrtypeDomain := h.type
    rw [if_neg (by rw [type]; decide)]
    exact ⟨h, rfl, fun ip => by simp at ip⟩
  | ipv4 =>
    have type : p.request.destAddrType = socksReqAddrtypeIpv4 := h.type
    rw [if_pos (Or.inl type)]
    refine ⟨⟨h.cmd, h.type, h.size, fun i b at' => ?_⟩, rfl, fun _ => rfl⟩
    have apart : (4 : Int) + (i : Int) ≠ 3 := by omega
    have apart' : (4 : Int) + (i : Int) ≠ 2 := by omega
    exact (Function.update_of_ne apart _ _).trans
      ((Function.update_of_ne apart' _ _).trans (h.bytes i b at'))
  | ipv6 =>
    have type : p.request.destAddrType = socksReqAddrtypeIpv6 := h.type
    rw [if_pos (Or.inr type)]
    refine ⟨⟨h.cmd, h.type, h.size, fun i b at' => ?_⟩, rfl, fun _ => rfl⟩
    have apart : (8 : Int) + (i : Int) ≠ 3 := by omega
    have apart' : (8 : Int) + (i : Int) ≠ 2 := by omega
    exact (Function.update_of_ne apart _ _).trans
      ((Function.update_of_ne apart' _ _).trans (h.bytes i b at'))

theorem setPort_counts (p : RequestParser) :
    (setPort p).read = p.read ∧ (setPort p).remaining = p.remaining ∧
      (setPort p).stores = p.stores := by
  unfold setPort
  split <;> exact ⟨rfl, rfl, rfl⟩

/-- The byte goes to the port. -/
def RequestParser.putPort (p : RequestParser) (b : UInt8) : RequestParser :=
  { p with
    request := { p.request with destPort := p.request.destPort.set p.read.toNat b }
    stores := p.stores ++ [(.destPort, (p.read.toNat : Int))]
    read := p.read + 1 }

/-- The first byte of the port, or the second, which ends the request. -/
theorem port_feed (r : ConnectRequest) {first : List UInt8} {b : UInt8}
    (split : r.port = first ++ [b]) (h : InPort p r.kind r.addr first) :
    Finished (requestParserFeed p b) r := by
  have one : first.length = 1 := by
    have length := r.port_length
    rw [split, List.length_append, List.length_singleton] at length
    omega
  have read : p.read = 1 := UInt8.toNat_inj.mp (h.read.trans one)
  obtain ⟨x, rfl⟩ := List.length_eq_one_iff.mp one
  obtain ⟨y, z, pair⟩ := List.length_eq_two.mp h.port.1
  have started := h.port.2
  rw [pair] at started
  obtain rfl : y = x := by simpa using started
  have port : (p.putPort b).request.destPort = r.port := by
    simp [RequestParser.putPort, pair, read, split]
  have holds : Holds (p.putPort b).request r.kind r.addr :=
    ⟨h.holds.cmd, h.holds.type, h.holds.size, h.holds.bytes⟩
  have last : requestParserFeed p b = { setPort (p.putPort b) with state := .done } := by
    have ended : remainingIsDone (p.putPort b) = true := by
      simp [remainingIsDone, RequestParser.putPort, read, h.remaining]
    have fed : destPort p b = (setPort (p.putPort b), .done) := by
      rw [destPort]
      exact if_pos ended
    simp only [requestParserFeed, h.state, fed]
  obtain ⟨kept, same, sinPort⟩ := setPort_holds holds
  obtain ⟨counted, remains, stores⟩ := setPort_counts (p.putPort b)
  rw [last]
  refine ⟨rfl, kept, ?_, remains.trans h.remaining, same.trans port, fun ip => ?_, ?_⟩
  · refine counted.trans ?_
    simp [RequestParser.putPort, read]
  · refine (sinPort ip).trans ?_
    rw [port, split]
    rfl
  · refine stores.trans ?_
    simp [RequestParser.putPort, h.stores, read, storesTo_succ]

theorem port_start (h : InPort p kind addr []) (b : UInt8) :
    InPort (requestParserFeed p b) kind addr [b] := by
  have read : p.read = 0 := UInt8.toNat_inj.mp h.read
  obtain ⟨y, z, pair⟩ := List.length_eq_two.mp h.port.1
  have more : requestParserFeed p b = { p.putPort b with state := .destPort } := by
    have runs : remainingIsDone (p.putPort b) = false := by
      simp [remainingIsDone, RequestParser.putPort, read, h.remaining]
    have fed : destPort p b = (p.putPort b, .destPort) := by
      rw [destPort]
      exact if_neg (Bool.eq_false_iff.mp runs)
    simp only [requestParserFeed, h.state, fed]
  rw [more]
  refine ⟨rfl, ⟨h.holds.cmd, h.holds.type, h.holds.size, h.holds.bytes⟩, ?_, h.remaining, ?_, ?_⟩
  · simp [RequestParser.putPort, read]
  · simp [RequestParser.putPort, read, pair]
  · simp [RequestParser.putPort, read, h.stores, storesTo_succ]

/-! ## Every stream -/

theorem feed_stopped (h : p.state = .done ∨ p.InError) (b : UInt8) : requestParserFeed p b = p := by
  rcases h with state | state | state | state | state
  all_goals
    simp only [requestParserFeed, state]
    rw [← state]

theorem version_stage (fresh : Untouched p) (state : p.state = .version) (b : UInt8) :
    Stage [b] (requestParserFeed p b) := by
  have fed : requestParserFeed p b = { p with state := versionState b } := by
    simp only [requestParserFeed, state]
  rw [fed]
  by_cases socks : b = 0x05
  · subst socks
    exact .cmd rfl ⟨fresh.read, fresh.remaining, fresh.stores⟩
  · have bad : versionState b = .errorUnsupportedVersion := if_neg socks
    refine .refused ?_ ⟨fresh.read, fresh.remaining, fresh.stores⟩ (Or.inl ⟨b, [], rfl, socks⟩)
    exact Or.inr (Or.inr (Or.inr bad))

theorem cmd_stage (fresh : Untouched p) (state : p.state = .cmd) (b : UInt8) :
    Stage [0x05, b] (requestParserFeed p b) := by
  have fed : requestParserFeed p b = { (cmdState p b).1 with state := (cmdState p b).2 } := by
    simp only [requestParserFeed, state]
  rw [fed]
  by_cases connect : b = socksReqCmdConnect
  · subst connect
    have next : cmdState p socksReqCmdConnect =
        ({ p with request := { p.request with cmd := socksReqCmdConnect } }, .rsv) := if_pos rfl
    rw [next]
    exact .rsv rfl ⟨fresh.read, fresh.remaining, fresh.stores⟩ rfl
  · have next : cmdState p b = (p, .errorUnsupportedCmd) := if_neg connect
    rw [next]
    refine .refused (Or.inr (Or.inl rfl)) ⟨fresh.read, fresh.remaining, fresh.stores⟩ ?_
    exact Or.inr (Or.inl ⟨b, [], rfl, connect⟩)

/-- The type of an address of a fixed length. -/
theorem fixed_stage (fresh : Untouched p) (state : p.state = .atyp)
    (cmd : p.request.cmd = socksReqCmdConnect) (ip : kind = .ipv4 ∨ kind = .ipv6) :
    Stage (preamble rsv kind ++ []) (requestParserFeed p kind.code) := by
  have empty {q : Request} : ∀ (i : Nat) c, ([] : List UInt8)[i]? = some c →
      q.memory (kind.target.offset + i) = c := by
    intro i c at'
    cases at'
  have fed (b : UInt8) : requestParserFeed p b =
      { (addressType p b).1 with state := (addressType p b).2 } := by
    simp only [requestParserFeed, state]
  rcases ip with rfl | rfl
  · refine .address trivial (by decide) ?_
    rw [fed]
    exact ⟨rfl, ⟨cmd, rfl, fun n other => (by cases other), empty⟩, rfl, rfl, fresh.stores⟩
  · refine .address trivial (by decide) ?_
    rw [fed]
    exact ⟨rfl, ⟨cmd, rfl, fun n other => (by cases other), empty⟩, rfl, rfl, fresh.stores⟩

theorem atyp_stage (fresh : Untouched p) (state : p.state = .atyp)
    (cmd : p.request.cmd = socksReqCmdConnect) (b : UInt8) :
    Stage [0x05, socksReqCmdConnect, rsv, b] (requestParserFeed p b) := by
  by_cases v4 : b = socksReqAddrtypeIpv4
  · subst v4
    exact fixed_stage fresh state cmd (Or.inl rfl)
  · by_cases v6 : b = socksReqAddrtypeIpv6
    · subst v6
      exact fixed_stage fresh state cmd (Or.inr rfl)
    · have fed : requestParserFeed p b =
          { (addressType p b).1 with state := (addressType p b).2 } := by
        simp only [requestParserFeed, state]
      rw [fed]
      by_cases domain : b = socksReqAddrtypeDomain
      · subst domain
        exact .fqdn rfl ⟨fresh.read, fresh.remaining, fresh.stores⟩ cmd rfl
      · have next : addressType p b = ({ p with
            request := { p.request with destAddrType := b } }, .errorUnsupportedType) := by
          simp only [addressType, if_neg v4, if_neg domain, if_neg v6]
        rw [next]
        refine .refused (Or.inr (Or.inr (Or.inl rfl)))
          ⟨fresh.read, fresh.remaining, fresh.stores⟩ ?_
        refine Or.inr (Or.inr (Or.inl ⟨rsv, b, [], rfl, ?_⟩))
        simp [v4, v6, domain]

/-- The length of a domain is accepted, and the NUL behind the domain is stored. -/
def RequestParser.toName (p : RequestParser) (n : UInt8) : RequestParser :=
  let named := (remainingSet p n).store .host ((n.toNat : Int) - 1) 0
  { named with request := { named.request with fqdnSize := n.toNat } }

theorem fqdn_stage (fresh : Untouched p) (state : p.state = .destAddrFqdn)
    (cmd : p.request.cmd = socksReqCmdConnect)
    (type : p.request.destAddrType = socksReqAddrtypeDomain) (b : UInt8) :
    Stage [0x05, socksReqCmdConnect, rsv, socksReqAddrtypeDomain, b] (requestParserFeed p b) := by
  have fed : requestParserFeed p b =
      { (destAddressFqdn p b).1 with state := (destAddressFqdn p b).2 } := by
    simp only [requestParserFeed, state]
  rw [fed]
  by_cases long : b > maxFqdnSize - 1
  · have next : destAddressFqdn p b = (p, .error) := if_pos long
    rw [next]
    refine .refused (Or.inl rfl) ⟨fresh.read, fresh.remaining, fresh.stores⟩ ?_
    exact Or.inr (Or.inr (Or.inr ⟨rsv, b, [], rfl, long⟩))
  · have next : destAddressFqdn p b = (p.toName b, .destAddr) := if_neg long
    by_cases zero : b = 0
    · subst zero
      exact .zero ⟨rsv, [], rfl⟩
    · have some' : 1 ≤ b.toNat := by
        by_contra none
        exact zero (UInt8.toNat_inj.mp (by change b.toNat = 0; omega))
      have few : b.toNat ≤ 254 := UInt8.le_iff_toNat_le.mp (UInt8.not_lt.mp long)
      rw [next]
      change Stage (preamble rsv (.domain b) ++ []) _
      refine .address ⟨some', few⟩ some' ⟨rfl, ⟨cmd, type, ?_, ?_⟩, rfl, rfl, ?_⟩
      · rintro n ⟨⟩
        rfl
      · intro i c at'
        cases at'
      · change p.stores ++ _ = _
        rw [fresh.stores]
        rfl

/-- What a stream has made of the parser, one more byte makes of it too. -/
theorem stage_feed (h : Stage w p) (b : UInt8) : Stage (w ++ [b]) (requestParserFeed p b) := by
  cases h with
  | version state fresh => exact version_stage fresh state b
  | cmd state fresh => exact cmd_stage fresh state b
  | rsv state fresh cmd =>
    have fed : requestParserFeed p b = { p with state := .atyp } := by
      simp only [requestParserFeed, state]
    rw [fed]
    exact .atyp rfl ⟨fresh.read, fresh.remaining, fresh.stores⟩ cmd
  | atyp state fresh cmd => exact atyp_stage fresh state cmd b
  | fqdn state fresh cmd type => exact fqdn_stage fresh state cmd type b
  | @address _ rsv kind part allowed more reading =>
    rw [List.append_assoc]
    rcases address_feed allowed more reading b with ⟨more', reading'⟩ | ⟨ended, reading'⟩
    · exact .address allowed (by rw [List.length_append]; exact more') reading'
    · have whole : Stage (preamble rsv kind ++ (part ++ [b] ++ [])) (requestParserFeed p b) :=
        .port allowed (by rw [List.length_append]; exact ended) Nat.zero_lt_two reading'
      rwa [List.append_nil] at whole
  | @port _ rsv kind addr part allowed length more reading =>
    rw [List.append_assoc, List.append_assoc]
    rcases Nat.eq_zero_or_pos part.length with none | one
    · obtain rfl := List.length_eq_zero_iff.mp none
      exact .port allowed length (by simp) (port_start reading b)
    · let r : ConnectRequest := ⟨rsv, kind, addr, part ++ [b], allowed, length, by
        rw [List.length_append, List.length_singleton]
        omega⟩
      have whole : Stage (r.encode ++ []) (requestParserFeed p b) := .done (port_feed r rfl reading)
      rwa [List.append_nil] at whole
  | @done _ r rest finished =>
    rw [List.append_assoc, feed_stopped (Or.inl finished.state)]
    exact .done finished
  | refused error fresh malformed =>
    rw [feed_stopped (Or.inr error)]
    exact .refused error fresh (malformed_append malformed [b])
  | zero length =>
    obtain ⟨rsv, rest, rfl⟩ := length
    exact .zero ⟨rsv, rest ++ [b], List.append_assoc _ _ _⟩

/-- The parser after a stream. -/
theorem parse_stage (q : Request) (w : List UInt8) :
    Stage w (w.foldl requestParserFeed (freshParser q)) := by
  have from' : ∀ (w u : List UInt8) (p : RequestParser), Stage u p →
      Stage (u ++ w) (w.foldl requestParserFeed p) := by
    intro w
    induction w with
    | nil =>
      intro u p here
      rwa [List.append_nil]
    | cons b w ih =>
      intro u p here
      have rest := ih (u ++ [b]) (requestParserFeed p b) (stage_feed here b)
      rwa [List.append_assoc] at rest
  exact from' w [] (freshParser q) (.version rfl ⟨rfl, rfl, rfl⟩)

end

end SocksProxy
