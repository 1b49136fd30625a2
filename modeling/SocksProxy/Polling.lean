import SocksProxy.Whole

/-!
# What the server polls

In every process between two callbacks the table of the selector is consistent, and
`pselect` is asked only for open descriptors that something handles.
-/

namespace SocksProxy

open Lib

section
variable {others socks mng : List Nat} {dissectors : UInt8} {heap : Heap} {users admins : UserTable}
  {base : Int → Bool} {p p' : Process} {l : Happening} {ls : List (Process × Happening)}
  {a : Accepted}

/-! ## The table of the selector -/

theorem accepted_tidy {isSocks : Bool} {w : World} {x : Option Session} (sound : p.Sound base)
    (tidy : p.world.sel.Tidy) (h : passiveAccept isSocks a p.world = .ok (w, x)) : w.sel.Tidy := by
  unfold passiveAccept at h
  split at h
  · obtain rfl := (Prod.mk.inj (Except.ok.inj h)).1
    exact tidy
  · rename_i n addr client
    simp only at h
    split at h
    · split at h
      · obtain rfl := (Prod.mk.inj (Except.ok.inj h)).1
        exact tidy
      · obtain ⟨stm, -, h⟩ := bind_eq_ok.mp h
        cases isSocks <;> simp only [Bool.false_eq_true, if_true, if_false] at h <;> split at h <;>
          (obtain rfl := (Prod.mk.inj (Except.ok.inj h)).1; exact register_tidy sound.span tidy _ _ _ _ _)
    · obtain rfl := (Prod.mk.inj (Except.ok.inj h)).1
      exact tidy

theorem did_tidy (sound : p.Sound base) (did : p.Did l p') (tidy : p.world.sel.Tidy) :
    p'.world.sel.Tidy := by
  cases did with
  | @turn e fd o a key x more marks t called step turns =>
    apply turns.acts.tidy
    rw [(taken_world e fd (view x p.world)).2.2]
    split
    · exact ⟨⟨⟨tidy.consistent.own, tidy.consistent.master, tidy.consistent.maxFd, tidy.consistent.noFd⟩,
        tidy.valid⟩, tidy.idle⟩
    · exact tidy
  | arrival fd o passive offers accepted => exact accepted_tidy sound tidy accepted
  | refusal fd o passive offers refused => exact accepted_tidy sound tidy refused
  | @answer answer k queued x member there =>
    rw [resolverLeaves_eq]
    exact ⟨⟨⟨tidy.consistent.own, tidy.consistent.master, tidy.consistent.maxFd, tidy.consistent.noFd⟩,
      tidy.valid⟩, tidy.idle⟩

theorem listen_tidy {passives : List (Nat × FdHandler)} {s s' : FdSelector}
    (span : s.fdSize = itemsMaxSize + 1) (tidy : s.Tidy) (h : listen passives s = some s') :
    s'.Tidy := by
  induction passives generalizing s with
  | nil =>
    obtain rfl := Option.some.inj h
    exact tidy
  | cons q rest ih =>
    unfold listen at h
    rw [List.foldlM_cons] at h
    obtain ⟨u, first, h⟩ := Option.bind_eq_some_iff.mp h
    simp only at first
    split at first
    · obtain rfl := Option.some.inj first
      have full : itemsMaxSize < s.fdSize := by rw [span]; decide
      have size := (register_eq full q.1 q.2 opRead 0 true).2.2.1
      exact ih (size.trans span) (register_tidy span tidy _ _ _ _ _) h
    · cases first

theorem main_tidy (start : mainProcess others socks mng dissectors heap users admins = some p) :
    p.world.sel.Tidy := by
  obtain ⟨sel, listening, rfl⟩ := Option.map_eq_some_iff.mp start
  have span : (selectorNew selectorInitialElements true).2.fdSize = itemsMaxSize + 1 := by decide
  refine listen_tidy span ⟨new_kept selectorInitialElements true, fun fd _ => ?_⟩ listening
  change ((itemsInit (fun _ => itemInit) 0 (nextCapacity selectorInitialElements)) fd).interest = opNoop
  unfold itemsInit
  split <;> rfl

theorem run_tidy (start : mainProcess others socks mng dissectors heap users admins = some p)
    (run : Run Process.Step p ls p') (keeps : ∀ q ∈ ls, q.1.KeepsCount q.2) : p'.world.sel.Tidy := by
  refine run_kept (I := fun _ q => q.world.sel.Tidy) start (main_tidy start) ?_ run keeps
  intro ls q l q' before keeps sound did tidy
  exact did_tidy sound did tidy

/-! ## What is polled -/

/-- The passive sockets wait for reading and for nothing else. -/
def Process.Listens (p : Process) : Prop :=
  ∀ fd, (p.world.sel.fds fd).used = true →
    (p.world.sel.fds fd).handler = .socksPassive ∨ (p.world.sel.fds fd).handler = .mngPassive →
    (p.world.sel.fds fd).interest = opRead

theorem handler_active (x : Socks5) : x.handler ≠ .socksPassive ∧ x.handler ≠ .mngPassive := by
  unfold Socks5.handler
  split <;> decide

theorem did_listens (sound : p.Sound base) (did : p.Did l p') (listens : p.Listens) :
    p'.Listens := by
  obtain ⟨key, k', w, rfl, moves⟩ := did_moves sound did
  have sound' := moves_sound sound moves
  intro fd used passive
  rcases sound'.used fd used with ⟨based, -⟩ | ⟨key', x, -, owner⟩
  · have slot : w.sel.fds fd = p.world.sel.fds fd := (moves.outside fd (.inr (.inl based))).1
    have used : (w.sel.fds fd).used = true := used
    change (w.sel.fds fd).interest = opRead
    have passive : (w.sel.fds fd).handler = .socksPassive ∨ (w.sel.fds fd).handler = .mngPassive :=
      passive
    rw [slot] at used passive ⊢
    exact listens fd used passive
  · have handler : ((p.become key k' w).world.sel.fds fd).handler = x.2.handler :=
      congrArg Prod.fst owner
    rw [handler] at passive
    exact absurd passive (not_or.mpr (handler_active x.2))

theorem listen_interest {passives : List (Nat × FdHandler)} {s s' : FdSelector}
    (span : s.fdSize = itemsMaxSize + 1) (h : listen passives s = some s')
    (reads : ∀ fd, (s.fds fd).used = true → (s.fds fd).interest = opRead) :
    ∀ fd, (s'.fds fd).used = true → (s'.fds fd).interest = opRead := by
  induction passives generalizing s with
  | nil =>
    obtain rfl := Option.some.inj h
    exact reads
  | cons q rest ih =>
    unfold listen at h
    rw [List.foldlM_cons] at h
    obtain ⟨u, first, h⟩ := Option.bind_eq_some_iff.mp h
    simp only at first
    split at first
    · rename_i taken
      obtain rfl := Option.some.inj first
      obtain ⟨-, -, size, fds⟩ := register_taken span taken
      refine ih size h fun fd used => ?_
      rw [fds] at used ⊢
      by_cases here : fd = q.1
      · rw [here, Function.update_self]
      · rw [Function.update_of_ne here] at used ⊢
        exact reads fd used
    · cases first

theorem main_listens (start : mainProcess others socks mng dissectors heap users admins = some p) :
    p.Listens := by
  obtain ⟨sel, listening, rfl⟩ := Option.map_eq_some_iff.mp start
  have span : (selectorNew selectorInitialElements true).2.fdSize = itemsMaxSize + 1 := by decide
  intro fd used _
  refine listen_interest span listening (fun f before => ?_) fd used
  have empty : ((selectorNew selectorInitialElements true).2.fds f).used = false := by
    change ((itemsInit (fun _ => itemInit) 0 (nextCapacity selectorInitialElements)) f).used = false
    unfold itemsInit
    split <;> rfl
  exact absurd (before.symm.trans empty) (by decide)

/-- What `pselect` is asked for, in a process between two callbacks. -/
structure Process.Polls (p : Process) : Prop where
  table : p.world.sel.Consistent
  isOpen : ∀ op fd, p.world.sel.master op fd = true →
    p.world.isOpen fd = true ∧ 0 ≤ fd ∧ fd ≤ p.world.sel.maxFd
  handles : ∀ op fd, p.world.sel.master op fd = true →
    (p.world.sel.fds fd).handler.handles op = true

theorem run_listens (start : mainProcess others socks mng dissectors heap users admins = some p)
    (run : Run Process.Step p ls p') (keeps : ∀ q ∈ ls, q.1.KeepsCount q.2) : p'.Listens := by
  refine run_kept (I := fun _ q => q.Listens) start (main_listens start) ?_ run keeps
  intro ls q l q' before keeps sound did listens
  exact did_listens sound did listens

/-- In every run the sets that `pselect` is given are those of the interests in the table, each
descriptor in them is open, so that it is never answered with EBADF, and is scanned, and what
handles it has a callback for what it is polled for, so that the scan never asserts. -/
theorem polls_open (start : mainProcess others socks mng dissectors heap users admins = some p)
    (run : Run Process.Step p ls p') (keeps : ∀ q ∈ ls, q.1.KeepsCount q.2) : p'.Polls := by
  have sound := run_sound start run keeps
  have tidy := run_tidy start run keeps
  have listens := run_listens start run keeps
  refine ⟨tidy.consistent, fun op fd polled => ?_, fun op fd polled => ?_⟩
  · obtain ⟨used, -⟩ := (tidy.consistent.master op fd).mp polled
    exact ⟨used_open sound used, valid_low (tidy.valid fd used),
      (tidy.consistent.maxFd ⟨fd, used⟩).2 used⟩
  · obtain ⟨used, wants⟩ := (tidy.consistent.master op fd).mp polled
    have reads := listens fd used
    cases handler : (p'.world.sel.fds fd).handler with
    | socks5 => rfl
    | mng => rfl
    | socksPassive | mngPassive =>
      rw [reads (by simp [handler])] at wants
      cases op with
      | read => rfl
      | write => cases wants

end

/-- The connection of the first client is polled for reading. -/
theorem polls_open_first : ∃ p p' : Process, userServer = some p ∧
    p'.world.sel.master .read 5 = true ∧ p'.Polls := by
  have plays : (userServer.bind fun p => p.play [firstArrives]).any
      (fun p => p.world.sel.master .read 5) = true := by
    decide +kernel
  obtain ⟨p, ls, p', start, run, -, keeps, polled⟩ := served (by decide) plays
  exact ⟨p, p', start, polled, polls_open start run keeps⟩

end SocksProxy
