import SocksProxy.Messages
import SocksProxy.ClientRequests
import SocksProxy.Boot

/-!
# What the credentials of a message are compared with

The strings of a message are counted, and those of the table end at their first
zero byte. A message lets its client in if and only if the parts of its strings
before a zero byte are those of an account, so the check is membership of the
strings themselves only where they have no zero byte, or where their parts are
no account's either.
-/

namespace SocksProxy

open Lib

/-- Some slot has the two strings, every byte compared. -/
def UserTable.Has (heap : Heap) (t : UserTable) (username password : List UInt8) : Prop :=
  ∃ i < t.nusers, (t.slots i).name.bind heap.block = some (username ++ [0]) ∧
    (t.slots i).pass.bind heap.block = some (password ++ [0])

def UserTable.HasName (heap : Heap) (t : UserTable) (username : List UInt8) : Prop :=
  ∃ i < t.nusers, (t.slots i).name.bind heap.block = some (username ++ [0])

/-- The parser of the table after a client's message of these values, in whatever pieces. -/
def ReadFrom (t : MessageTable) (vs : List (List UInt8)) (p : Parser) : Prop :=
  ∃ b chunks rest b' left, b.Rewound ∧ Arrives b chunks ∧
    t.Begins vs (bufferReadPtr b ++ chunks.flatten) rest ∧
    receive parserConsumer b t.parser chunks = .ok (b', p, true, left)

/-- The client is let in. -/
def Admits (p : Parser) (c : Conn) : Prop :=
  ∃ next c', authProcess p c = .ok (next, c') ∧ c'.authentication = 0x00

/-- The client is let in if and only if some slot has its two strings. -/
def MembershipExact (p : Parser) (c : Conn) (username password : List UInt8) : Prop :=
  ∃ next c', authProcess p c = .ok (next, c') ∧
    (c'.authentication = 0x00 ↔ c.users.Has c.heap username password)

/-- After the request that `q` read, the strings of `p` open the name. Those of `p'`, with
another password, do not, unless a slot had the name before. -/
def AdditionExact (q p p' : Parser) (index : UInt8) (c : Conn)
    (username password other : List UInt8) : Prop :=
  ∃ added, processMngParamsRequest q index c = .ok added ∧
    ∀ d : Conn, d.isSocks = true → d.heap = added.heap → d.users = added.users →
      Admits p d ∧
      (other ≠ password → ¬ c.users.HasName c.heap username → ¬ Admits p' d)

section
variable {heap : Heap} {t : UserTable} {ptrs : List (Nat × Nat)} {accounts : List Account}
  {c : Conn} {p p' q : Parser} {index : UInt8} {version username password other : List UInt8}

/-! ## The slots and the accounts -/

theorem Tabled.slot (h : Tabled heap t ptrs accounts) {i : Nat} (below : i < accounts.length) :
    (t.slots i).name.bind heap.block = some (accounts[i].name ++ [0]) ∧
      (t.slots i).pass.bind heap.block = some (accounts[i].pass ++ [0]) := by
  have many := h.stored.length_eq
  have here := h.stored.get (by omega) below
  have held := h.slots i ptrs[i] (List.getElem?_eq_getElem (by omega))
  rw [Nat.zero_add] at held
  rw [held]
  exact ⟨here.1, here.2.1⟩

theorem has_iff (h : Tabled heap t ptrs accounts) (username password : List UInt8) :
    t.Has heap username password ↔ ⟨username, password⟩ ∈ accounts := by
  have count := h.length.trans h.stored.length_eq
  constructor
  · rintro ⟨i, below, name, pass⟩
    rw [count] at below
    obtain ⟨name', pass'⟩ := h.slot below
    have same : accounts[i] = ⟨username, password⟩ := by
      apply Account.ext
      · exact List.append_cancel_right (Option.some.inj (name'.symm.trans name))
      · exact List.append_cancel_right (Option.some.inj (pass'.symm.trans pass))
    exact same ▸ List.getElem_mem below
  · intro member
    obtain ⟨i, below, same⟩ := List.mem_iff_getElem.mp member
    have slot := h.slot below
    rw [same] at slot
    exact ⟨i, count ▸ below, slot⟩

/-! ## The check -/

theorem readFrom_kept {t : MessageTable} {vs : List (List UInt8)} (read : ReadFrom t vs p) :
    Kept t.fields vs p.states := by
  obtain ⟨b, chunks, rest, b', left, rewound, arrives, begins, received⟩ := read
  obtain ⟨b'', p', left', received', -, whole, -⟩ := message_decoded t rewound arrives
  have same := congrArg (fun r => r.2.1) (Except.ok.inj (received.symm.trans received'))
  obtain rfl : p = p' := same
  exact (whole vs rest begins).2.1

/-- The check looks for the parts of the strings before a zero byte. -/
theorem checkCredentials_member (username password : List UInt8)
    (tabled : Tabled heap t ptrs accounts) :
    ∃ r, checkCredentials heap t (some (username ++ [0])) (some (password ++ [0])) = .ok r ∧
      (r.1 = 0x00 ↔ ⟨chars username, chars password⟩ ∈ accounts) := by
  have refused := checkCredentials_refused username password tabled
  rw [checkCredentials_spec username password tabled] at refused ⊢
  cases found : accounts.findIdx? fun a => decide (a = ⟨chars username, chars password⟩) with
  | none =>
    rw [found] at refused
    exact ⟨_, rfl, iff_of_false (by decide) (refused.mp rfl)⟩
  | some i =>
    rw [found] at refused
    exact ⟨_, rfl, iff_of_true rfl (by_contra fun out => nomatch refused.mpr out)⟩

theorem authProcess_spec (tabled : Tabled c.heap c.users ptrs accounts) (socks : c.isSocks = true)
    (read : ReadFrom .userpass [version, username, password] p) :
    ∃ next c', authProcess p c = .ok (next, c') ∧
      (c'.authentication = 0x00 ↔ ⟨chars username, chars password⟩ ∈ accounts) := by
  have results := Client.kept_resultAt (p := p) [] (readFrom_kept read) rfl
  have first : p.resultAt 2 = .ok (some (username ++ [0])) :=
    results (2, username) (.tail _ (.head _))
  have second : p.resultAt 4 = .ok (some (password ++ [0])) :=
    results (4, password) (.tail _ (.tail _ (.head _)))
  obtain ⟨r, checked, member⟩ := checkCredentials_member username password tabled
  have ran : authProcess p c = .ok (SocksV5State.userpassWrite.num,
      c.checked (some (username ++ [0])) (some (password ++ [0])) r.1 (r.2.getD c.userIndex)) := by
    simp only [authProcess, first, second, ok_bind, socks, if_true, checked, Conn.checked,
      checkCall]
  exact ⟨_, _, ran, member⟩

theorem admits_iff (tabled : Tabled c.heap c.users ptrs accounts) (socks : c.isSocks = true)
    (read : ReadFrom .userpass [version, username, password] p) :
    Admits p c ↔ ⟨chars username, chars password⟩ ∈ accounts := by
  obtain ⟨next, c', ran, accepted⟩ := authProcess_spec tabled socks read
  rw [← accepted]
  constructor
  · rintro ⟨next', c'', ran', success⟩
    obtain ⟨-, rfl⟩ := Prod.mk.inj (Except.ok.inj (ran.symm.trans ran'))
    exact success
  · intro success
    exact ⟨next, c', ran, success⟩

/-- A request with room in the table adds the parts before a zero byte. -/
theorem addition_spec (add : mngIndexOf index = some .addUser)
    (tabled : Tabled c.heap c.users ptrs accounts) (room : c.users.nusers < maxUsers)
    (read : ReadFrom .addUser [username, password] q) :
    ∃ added ptrs', processMngParamsRequest q index c = .ok added ∧
      Tabled added.heap added.users ptrs' (accounts ++ [⟨chars username, chars password⟩]) := by
  have results := Client.kept_resultAt (p := q) [] (readFrom_kept read) rfl
  have first : q.resultAt 1 = .ok (some (username ++ [0])) := results (1, username) (.head _)
  have second : q.resultAt 3 = .ok (some (password ++ [0])) :=
    results (3, password) (.tail _ (.head _))
  have appended := appendUser_tabled _ _ tabled (chars_chars username) (chars_chars password)
  rw [processMngParamsRequest_addUser add first second, TableOp.apply,
    if_neg (Nat.ne_of_lt room), addUser_append _ _ room]
  exact ⟨_, _, rfl, appended⟩

/-! ## When the check is exact -/

theorem membership_iff (tabled : Tabled c.heap c.users ptrs accounts) (socks : c.isSocks = true)
    (read : ReadFrom .userpass [version, username, password] p) :
    MembershipExact p c username password ↔
      ((0 : UInt8) ∉ username ∧ (0 : UInt8) ∉ password) ∨
        ¬ c.users.Has c.heap (chars username) (chars password) := by
  obtain ⟨next, c', ran, accepted⟩ := authProcess_spec tabled socks read
  have exact' : MembershipExact p c username password ↔
      (⟨chars username, chars password⟩ ∈ accounts ↔ ⟨username, password⟩ ∈ accounts) := by
    rw [← has_iff tabled username password, ← accepted]
    constructor
    · rintro ⟨next', c'', ran', same⟩
      obtain ⟨-, rfl⟩ := Prod.mk.inj (Except.ok.inj (ran.symm.trans ran'))
      exact same
    · intro same
      exact ⟨next, c', ran, same⟩
  rw [exact', has_iff tabled, ← chars_of_plain, ← chars_of_plain]
  constructor
  · intro same
    by_cases cut : ⟨chars username, chars password⟩ ∈ accounts
    · exact Or.inl (tabled.plain _ (same.mp cut))
    · exact Or.inr cut
  · rintro (⟨plain, plain'⟩ | out)
    · rw [plain, plain']
    · apply iff_of_false out
      intro member
      have plain := tabled.plain _ member
      exact out (by rw [plain.1, plain.2]; exact member)

theorem addition_iff (add : mngIndexOf index = some .addUser)
    (tabled : Tabled c.heap c.users ptrs accounts) (room : c.users.nusers < maxUsers)
    (request : ReadFrom .addUser [username, password] q)
    (same : ReadFrom .userpass [version, username, password] p)
    (wrong : ReadFrom .userpass [version, username, other] p') :
    AdditionExact q p p' index c username password other ↔
      other = password ∨ c.users.HasName c.heap username ∨
        chars other ≠ chars password ∧
          ¬ c.users.Has c.heap (chars username) (chars other) := by
  obtain ⟨added, ptrs', ran, tabled'⟩ := addition_spec add tabled room request
  have opens : ∀ d : Conn, d.isSocks = true → d.heap = added.heap → d.users = added.users →
      Admits p d ∧ (Admits p' d ↔ ⟨chars username, chars other⟩ ∈ accounts ∨
        chars other = chars password) := by
    intro d socks heap users
    have table : Tabled d.heap d.users ptrs' (accounts ++ [⟨chars username, chars password⟩]) := by
      rwa [heap, users]
    rw [admits_iff table socks same, admits_iff table socks wrong]
    simp
  rw [has_iff tabled]
  constructor
  · rintro ⟨added', ran', exact'⟩
    obtain rfl := Except.ok.inj (ran.symm.trans ran')
    let d : Conn := { added with isSocks := true }
    obtain ⟨-, denied⟩ := exact' d rfl rfl rfl
    rw [(opens d rfl rfl rfl).2] at denied
    by_cases equal : other = password
    · exact Or.inl equal
    by_cases named : c.users.HasName c.heap username
    · exact Or.inr (Or.inl named)
    · have out := not_or.mp (denied equal named)
      exact Or.inr (Or.inr ⟨out.2, out.1⟩)
  · intro condition
    refine ⟨added, ran, fun d socks heap users => ⟨(opens d socks heap users).1, ?_⟩⟩
    intro differs unnamed
    rw [(opens d socks heap users).2]
    rcases condition with equal | named | ⟨apart, out⟩
    · exact absurd equal differs
    · exact absurd named unnamed
    · exact not_or.mpr ⟨out, apart⟩

/-- A buffer of 16 bytes takes a short message in one piece. -/
theorem message_read (t : MessageTable) {vs : List (List UInt8)} {bytes : List UInt8}
    (message : Parsed t.fields vs bytes) (some' : bytes ≠ []) (short : bytes.length ≤ 16) :
    ∃ p, ReadFrom t vs p := by
  let b := bufferInit 16 (List.replicate 16 0) rfl
  have rewound : b.Rewound := fun _ => rfl
  have arrives : Arrives b [bytes] := ⟨some', short, fun c member => nomatch member⟩
  have begins : t.Begins vs (bufferReadPtr b ++ [bytes].flatten) [] := ⟨bytes, message, rfl⟩
  obtain ⟨b', p, left, received, -, whole, -, -⟩ := message_decoded t rewound arrives
  obtain ⟨current, -, -⟩ := whole vs [] begins
  rw [current] at received
  exact ⟨p, b, [bytes], [], b', left, rewound, arrives, begins, received⟩

theorem credentials_read (username password : List UInt8) (short : username.length ≤ 6)
    (short' : password.length ≤ 6) :
    (∃ p, ReadFrom .userpass [[1], username, password] p) ∧
      ∃ q, ReadFrom .addUser [username, password] q := by
  have strings : Parsed [.counted, .counted] [username, password]
      (Client.counted username ++ (Client.counted password ++ [])) :=
    Client.counted_message (by omega) (Client.counted_message (by omega) .nil)
  constructor
  · apply message_read .userpass (.one rfl strings)
    · simp
    · simp [Client.counted]
      omega
  · apply message_read .addUser strings
    · simp [Client.counted]
    · simp [Client.counted]
      omega

/-- A client of a server with this table. -/
theorem client_of_table (σ : Heap × UserTable) :
    ∃ c : Conn, c.isSocks = true ∧ c.heap = σ.1 ∧ c.users = σ.2 := by
  have started : (firstClient []).isSome = true := by decide +kernel
  obtain ⟨s, -⟩ := Option.isSome_iff_exists.mp started
  exact ⟨{ s.conn with isSocks := true, heap := σ.1, users := σ.2 }, rfl, rfl, rfl⟩

/-- The check is membership if and only if the strings have no zero byte or their parts
before one are no account. After an addition the name has one password, unless it had one
before, if and only if the other password differs before a zero byte and the parts before
one are no account. -/
theorem authentication_exact_iff (tabled : Tabled c.heap c.users ptrs accounts)
    (socks : c.isSocks = true) (read : ReadFrom .userpass [version, username, password] p) :
    (MembershipExact p c username password ↔
      ((0 : UInt8) ∉ username ∧ (0 : UInt8) ∉ password) ∨
        ¬ c.users.Has c.heap (chars username) (chars password)) ∧
    ∀ q p' index other, mngIndexOf index = some .addUser → c.users.nusers < maxUsers →
      ReadFrom .addUser [username, password] q →
      ReadFrom .userpass [version, username, other] p' →
      (AdditionExact q p p' index c username password other ↔
        other = password ∨ c.users.HasName c.heap username ∨
          chars other ≠ chars password ∧
            ¬ c.users.Has c.heap (chars username) (chars other)) := by
  constructor
  · exact membership_iff tabled socks read
  · intro q p' index other add room request wrong
    exact addition_iff add tabled room request read wrong

/-- `u:p` is not let in before it is added; `u:x` is not let in after. -/
theorem authentication_exact_plain : ∃ (c : Conn) (p q p' : Parser),
    c.users.nusers = 0 ∧ ReadFrom .userpass [[1], [117], [112]] p ∧
    ReadFrom .addUser [[117], [112]] q ∧ ReadFrom .userpass [[1], [117], [120]] p' ∧
    MembershipExact p c [117] [112] ∧ AdditionExact q p p' 10 c [117] [112] [120] := by
  obtain ⟨c, socks, heap, users⟩ := client_of_table noUsers
  have tabled : Tabled c.heap c.users [] [] := by
    rw [heap, users]
    exact noUsers_tabled
  have none : c.users.nusers = 0 := by rw [users]; rfl
  obtain ⟨⟨p, read⟩, q, request⟩ := credentials_read [117] [112] (by decide) (by decide)
  obtain ⟨⟨p', wrong⟩, -⟩ := credentials_read [117] [120] (by decide) (by decide)
  obtain ⟨member, added⟩ := authentication_exact_iff tabled socks read
  have out : ¬ c.users.Has c.heap [117] [120] := fun ⟨i, below, _⟩ => by omega
  refine ⟨c, p, q, p', none, read, request, wrong, member.mpr (.inl (by decide)), ?_⟩
  exact (added q p' 10 [120] rfl (by rw [none]; decide) request wrong).mpr
    (.inr (.inr ⟨by decide, out⟩))

/-- The account `u:p` lets in a client with another name, which has a zero byte after the
`u`. Once `u:p` is added, `u` is opened by a password with a zero byte after the `p`. -/
theorem zero_byte_admitted :
    (∃ c p, Tabled c.heap c.users [(0, 1)] [⟨[117], [112]⟩] ∧
      ReadFrom .userpass [[1], [117, 0, 120], [112]] p ∧ Admits p c ∧
      ¬ MembershipExact p c [117, 0, 120] [112]) ∧
    ∃ c q p p', Tabled c.heap c.users [] [] ∧ ReadFrom .addUser [[117], [112]] q ∧
      ReadFrom .userpass [[1], [117], [112]] p ∧ ReadFrom .userpass [[1], [117], [112, 0]] p' ∧
      ¬ AdditionExact q p p' 10 c [117] [112] [112, 0] := by
  constructor
  · obtain ⟨c, socks, heap, users⟩ := client_of_table (appendUser noUsers.1 noUsers.2 [117] [112])
    have tabled : Tabled c.heap c.users [(0, 1)] [⟨[117], [112]⟩] := by
      rw [heap, users]
      exact appendUser_tabled [117] [112] noUsers_tabled rfl rfl
    obtain ⟨⟨p, read⟩, -⟩ := credentials_read [117, 0, 120] [112] (by decide) (by decide)
    have admitted : Admits p c := (admits_iff tabled socks read).mpr (List.mem_singleton.mpr rfl)
    refine ⟨c, p, tabled, read, admitted, ?_⟩
    rw [membership_iff tabled socks read, has_iff tabled]
    rintro (⟨plain, -⟩ | out)
    · exact plain (by decide)
    · exact out (List.mem_singleton.mpr rfl)
  · obtain ⟨c, socks, heap, users⟩ := client_of_table noUsers
    have tabled : Tabled c.heap c.users [] [] := by
      rw [heap, users]
      exact noUsers_tabled
    have none : c.users.nusers = 0 := by rw [users]; rfl
    obtain ⟨⟨p, read⟩, q, request⟩ := credentials_read [117] [112] (by decide) (by decide)
    obtain ⟨⟨p', wrong⟩, -⟩ := credentials_read [117] [112, 0] (by decide) (by decide)
    refine ⟨c, q, p, p', tabled, request, read, wrong, ?_⟩
    rw [addition_iff rfl tabled (by rw [none]; decide) request read wrong]
    rintro (same | ⟨i, below, -⟩ | ⟨apart, -⟩)
    · cases same
    · omega
    · exact apart rfl

end

end SocksProxy
