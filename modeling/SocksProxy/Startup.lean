import SocksProxy.Custody
import SocksProxy.Loading
import SocksProxy.Membership

/-!
# The server from its command line

The options fill one table and the credentials file the other, in blocks of their own. From
there on no block has two owners, and every login is answered from the list of its table.
-/

namespace SocksProxy

open Lib

/-- The login of a connection is let in by the accounts of its kind of client. -/
def Process.Answers (p : Process) (accounts trusted : List Account) : Prop :=
  ∀ key x q version username password, p.part key = some x →
    ReadFrom .userpass [version, username, password] q →
      (Admits q (view x p.world).conn ↔
        ⟨chars username, chars password⟩ ∈ if x.2.isSocks then accounts else trusted)

/-- No block has two owners, and each dissector has the texts of its state. -/
def Process.Apart (p : Process) : Prop :=
  p.world.heap.Shared p.holds ∧
    ∀ key x, p.part key = some x → ∃ s, Dissects p.world.heap x.2.dissecParser s

section
variable {alloc : Nat → Bool} {file line version username password : List UInt8} {s t : Loader}
  {ptrs ptrs' : List (Nat × Nat)} {accounts trusted : List Account} {q : Parser} {c : Conn}

/-! ## Loading -/

/-- The file goes into new blocks, and the table of its accounts has no other ones. -/
theorem loadLoop_confined (tabled : Tabled s.heap s.admins ptrs accounts)
    (size : s.line.length = bufferLength) (ran : loadLoop alloc s file = .ok t) :
    s.heap.Confined (fun _ => False) t.heap ∧
      ∀ b, t.admins.Holds b → s.admins.Holds b ∨ s.heap.next ≤ b := by
  induction file using pieces.induct generalizing s ptrs accounts with
  | case1 =>
    rw [loadLoop_nil] at ran
    obtain rfl := Except.ok.inj ran
    exact ⟨.refl _ _, fun b => .inl⟩
  | case2 file more r =>
    rename_i ih
    rw [loadLoop_cons alloc s more] at ran
    have fits := cutLine_length (bufferLength - 1) file
    change (cutLine (bufferLength - 1) file).1.length ≤ _ at fits
    generalize (cutLine (bufferLength - 1) file).1 = piece at fits ran
    have whole : (piece ++ 0 :: s.line.drop (piece.length + 1)).length = bufferLength := by
      simp only [List.length_append, List.length_cons, List.length_drop, size, bufferLength] at fits ⊢
      omega
    obtain ⟨good, bad⟩ := loadLine_spec alloc
      { s with line := piece ++ 0 :: s.line.drop (piece.length + 1) } piece _ rfl whole
    obtain ⟨middle, loaded, rest⟩ := bind_eq_ok.mp ran
    by_cases fine : Divided piece ∧ Memory alloc s.admins.nusers ∧ s.admins.nusers < maxUsers
    · obtain ⟨line, size', loaded'⟩ := good fine
      obtain rfl := Except.ok.inj (loaded.symm.trans loaded')
      have plain := pieceAccount_plain piece
      have tabled' := appendUser_tabled (pieceAccount piece).name (pieceAccount piece).pass tabled
        plain.1 plain.2
      have appended := appendUser_confined s.heap s.admins (pieceAccount piece).name
        (pieceAccount piece).pass
      obtain ⟨confined, fresh⟩ := ih tabled' size' rest
      refine ⟨appended.trans confined fun _ _ => id, fun b held => ?_⟩
      rcases fresh b held with before | late
      · rw [holds_blocks tabled', blocks_append, List.mem_append] at before
        rcases before with old | new
        · exact .inl ((holds_blocks tabled).mpr old)
        · simp only [blocks_cons, blocks_nil, List.mem_cons, List.not_mem_nil, or_false] at new
          omega
      · exact .inr (Nat.le_trans appended.next late)
    · obtain ⟨f, failed⟩ := bad fine
      cases loaded.symm.trans failed

/-- What the options and the file leave is what the server starts with. -/
theorem loaded_stocked {σ : Heap × UserTable} {us : List ((Heap × UserTable) × TableOp)}
    (options : Run TableStep noUsers us σ) (size : line.length = bufferLength)
    (loaded : loadCredentials alloc line σ.1 file = .ok s) :
    Stocked s.heap σ.2 s.admins (listing [] us) ((pieces file).map pieceAccount) := by
  obtain ⟨ptrs, held⟩ := listing_run noUsers_tabled options
  have empty : Tabled σ.1 .empty [] [] :=
    ⟨rfl, fun j p at' => (by simp at at'), .nil, List.nodup_nil, held.fresh⟩
  obtain ⟨good, bad⟩ := loadLoop_spec alloc file ⟨line, σ.1, .empty⟩ size (Nat.zero_le _) empty
  obtain ⟨confined, fresh⟩ := loadLoop_confined empty size loaded
  have loadable : LoadableFrom alloc 0 (pieces file) := by
    by_contra wrong
    obtain ⟨f, failed⟩ := bad wrong
    cases loaded.symm.trans failed
  obtain ⟨s', ptrs', loaded', held'⟩ := good loadable
  obtain rfl := Except.ok.inj (loaded.symm.trans loaded')
  have low : ∀ c, σ.2.Holds c → c < σ.1.next := fun c holds =>
    held.old ((holds_blocks held).mp holds)
  constructor
  · refine ⟨ptrs, tabled_framed held (fun a late => not_not.mpr (held'.fresh a late)) fun c holds => ?_⟩
    exact confined.frame c (low c holds) id
  · exact ⟨ptrs', held'⟩
  · intro c holds holds'
    rcases fresh c holds' with ⟨i, bound, -⟩ | late
    · exact absurd bound (Nat.not_lt_zero i)
    · exact absurd (low c holds) (Nat.not_lt.mpr late)

/-! ## Logins -/

theorem checkMngCredentials_eq (heap : Heap) (t : UserTable) (username password : Option (List UInt8)) :
    checkMngCredentials heap t username password =
      checkCredentials heap t username password >>= fun r => .ok r.1 := by
  unfold checkMngCredentials checkCredentials
  cases findCredentials heap t username password t.nusers 0 with
  | error f => rfl
  | ok found => cases found <;> rfl

theorem looksUp_spec (username password : List UInt8) (users : Tabled c.heap c.users ptrs accounts)
    (admins : Tabled c.heap c.admins ptrs' trusted) :
    ∃ r, c.looksUp (some (username ++ [0])) (some (password ++ [0])) = .ok r ∧
      (r = 0x00 ↔
        ⟨chars username, chars password⟩ ∈ if c.isSocks then accounts else trusted) := by
  unfold Conn.looksUp
  cases socks : c.isSocks with
  | true =>
    obtain ⟨r, checked, member⟩ := checkCredentials_member username password users
    refine ⟨r.1, ?_, member⟩
    rw [if_pos rfl, checked, ok_bind]
  | false =>
    obtain ⟨r, checked, member⟩ := checkCredentials_member username password admins
    refine ⟨r.1, ?_, member⟩
    rw [if_neg Bool.false_ne_true, checkMngCredentials_eq, checked, ok_bind]

theorem authProcess_looked {u w : Option (List UInt8)} {r : UInt8} (first : q.resultAt 2 = .ok u)
    (second : q.resultAt 4 = .ok w) (looked : c.looksUp u w = .ok r) :
    ∃ next c', authProcess q c = .ok (next, c') := by
  unfold Conn.looksUp at looked
  simp only [authProcess, first, second, ok_bind]
  split at looked
  · rename_i socks
    obtain ⟨found, checked, -⟩ := bind_eq_ok.mp looked
    rw [if_pos socks, checked]
    exact ⟨_, _, rfl⟩
  · rename_i mng
    rw [if_neg mng, looked]
    exact ⟨_, _, rfl⟩

theorem login_iff (users : Tabled c.heap c.users ptrs accounts)
    (admins : Tabled c.heap c.admins ptrs' trusted)
    (read : ReadFrom .userpass [version, username, password] q) :
    Admits q c ↔ ⟨chars username, chars password⟩ ∈ if c.isSocks then accounts else trusted := by
  have results := Client.kept_resultAt (p := q) [] (readFrom_kept read) rfl
  have first : q.resultAt 2 = .ok (some (username ++ [0])) :=
    results (2, username) (.tail _ (.head _))
  have second : q.resultAt 4 = .ok (some (password ++ [0])) :=
    results (4, password) (.tail _ (.tail _ (.head _)))
  obtain ⟨r, looked, member⟩ := looksUp_spec username password users admins
  obtain ⟨next, c', ran⟩ := authProcess_looked first second looked
  have answer := Except.ok.inj (looked.symm.trans (authProcess_looks ran first second))
  rw [← member, answer]
  constructor
  · rintro ⟨next', c'', ran', success⟩
    obtain ⟨-, rfl⟩ := Prod.mk.inj (Except.ok.inj (ran.symm.trans ran'))
    exact success
  · exact fun success => ⟨next, c', ran, success⟩

end

/-! ## Whole runs -/

/-- The server with the option `-u u:p` and an empty credentials file. -/
def optionServer : Option Process := mainProcess [1, 2] [3] [4] 0 oneUser.1 oneUser.2 .empty

theorem option_stored : Run TableStep noUsers [(noUsers, .option [117, colon, 112])] oneUser := by
  refine .single ⟨rfl, fun heap same => ?_⟩
  cases same

theorem nothing_loaded : loadCredentials (fun _ => true) (List.replicate bufferLength 0) oneUser.1 [] =
    .ok ⟨List.replicate bufferLength 0, oneUser.1, .empty⟩ :=
  loadLoop_nil _ _

section
variable {alloc : Nat → Bool} {file line : List UInt8} {s : Loader} {σ : Heap × UserTable}
  {us : List ((Heap × UserTable) × TableOp)} {others socks mng : List Nat} {dissectors : UInt8}
  {p p' : Process} {ls : List (Process × Happening)}

/-- In every run of a server that its options and its credentials file started, the table of the
users is what additions and deletions made of the accounts of the options, and the table of the
administrators is that of the file: a login is let in if and only if its account is listed. -/
theorem logins_served (options : Run TableStep noUsers us σ) (size : line.length = bufferLength)
    (loaded : loadCredentials alloc line σ.1 file = .ok s)
    (start : mainProcess others socks mng dissectors s.heap σ.2 s.admins = some p)
    (run : Run Process.Step p ls p') (keeps : ∀ q ∈ ls, q.1.KeepsCount q.2) :
    ∃ us', Run TableStep (s.heap, σ.2) us' (p'.world.heap, p'.world.users) ∧
      (∀ u ∈ us', ∀ optarg, u.2 ≠ .option optarg) ∧
      p'.Answers (listing (listing [] us) us') ((pieces file).map pieceAccount) := by
  obtain ⟨us', changes, requests, stores⟩ :=
    run_stores start (loaded_stocked options size loaded) run keeps
  obtain ⟨ptrs, users⟩ := stores.users
  obtain ⟨ptrs', admins⟩ := stores.admins
  have world : (p.world.heap, p.world.users) = (s.heap, σ.2) := by
    obtain ⟨sel, -, rfl⟩ := Option.map_eq_some_iff.mp start
    rfl
  rw [world] at changes
  refine ⟨us', changes, requests, fun key x q version username password there read => ?_⟩
  exact login_iff users admins read

/-- The first client greets, and is asked for its login. -/
theorem logins_served_first : ∃ (p p' : Process) (us : List ((Heap × UserTable) × TableOp)),
    optionServer = some p ∧ (p'.part 7).isSome = true ∧
      Run TableStep oneUser us (p'.world.heap, p'.world.users) ∧
        p'.Answers (listing [⟨[117], [112]⟩] us) [] := by
  have plays : (optionServer.bind fun p => p.play greeted).any
      (fun p => (p.part 7).isSome) = true := by
    decide +kernel
  obtain ⟨p, ls, p', start, run, -, keeps, there⟩ := served rfl plays
  obtain ⟨us, changes, -, answers⟩ := logins_served option_stored List.length_replicate nothing_loaded
    start run keeps
  rw [pieces_nil] at answers
  exact ⟨p, p', us, start, there, changes, answers⟩

/-- In every run of such a server, no block of the heap belongs to both tables, to a table and a
dissector, or to the dissectors of two connections; each block that they refer to is live, and
each dissector has in its own what the texts that it was fed have left. -/
theorem blocks_apart (options : Run TableStep noUsers us σ) (size : line.length = bufferLength)
    (loaded : loadCredentials alloc line σ.1 file = .ok s)
    (start : mainProcess others socks mng dissectors s.heap σ.2 s.admins = some p)
    (run : Run Process.Step p ls p') (keeps : ∀ q ∈ ls, q.1.KeepsCount q.2) : p'.Apart := by
  obtain ⟨us', -, -, stores⟩ := run_stores start (loaded_stocked options size loaded) run keeps
  exact ⟨stores.shared, stores.dissects⟩

theorem blocks_apart_first : ∃ p p' : Process, optionServer = some p ∧ (p'.part 7).isSome = true ∧
    p'.Apart := by
  have plays : (optionServer.bind fun p => p.play greeted).any
      (fun p => (p.part 7).isSome) = true := by
    decide +kernel
  obtain ⟨p, ls, p', start, run, -, keeps, there⟩ := served rfl plays
  exact ⟨p, p', start, there,
    blocks_apart option_stored List.length_replicate nothing_loaded start run keeps⟩

end

end SocksProxy
