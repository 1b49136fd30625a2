import SocksProxy.Fallback

/-!
# References and descriptors

A record counts its items in the selector. Two kinds of attempt break the count:
one on a socket that is in the selector already, and one that is accepted at once
on a socket the selector does not take.
-/

namespace SocksProxy

open Lib

/-- `connecting_write` tries the next address. -/
def Retries (s : Session) (l : Label) (o : Outcome) : Prop :=
  (∃ fd, l = .event .write fd o) ∧ s.In .requestConnecting ∧
    2 ≤ s.conn.originResolutionCurrent.length ∧
    ((∃ conn, s.conn.orig = .conn conn ∧ conn.status ≠ .succeeded) ∨
      ∃ e, o.getsockopt = some (some e))

/-- The attempt of the step leaves each item with its reference. -/
def KeepsCount (s : Session) (l : Label) : Prop :=
  (∀ o n, Starts s l o → o.socket = some n → o.setNio = true → o.connect = none →
      s.conn.sel.Takes n) ∧
    ∀ o, Retries s l o →
      (connectResult o s.conn = none → s.conn.Registrable) ∧
        (connectResult o s.conn = some .einprogress → ¬ s.conn.sel.Registered s.conn.originFd)

/-- The references of a live record are its items, which are open descriptors of it. -/
structure Conn.Accounted (c : Conn) : Prop where
  items : ∃ fds : List Int, fds.Nodup ∧ fds.length = c.references ∧ ∀ fd, c.Holds fd ↔ fd ∈ fds
  own : ∀ fd, c.Holds fd → fd = c.clientFd ∨ fd = c.originFd
  isOpen : ∀ fd, c.Holds fd → c.isOpen fd = true
  unreleased : .released ∉ c.calls

def Session.Over (s : Session) : Prop := s.In .done ∨ s.In .error

section
variable {k k' : Course} {c : Conn} {s t : Session} {l : Label} {ls : List (Session × Label)}
  {act : Act}

/-- A session on its course is over, or its record fits the course. -/
theorem place_live (place : k.Place s) :
    ¬ s.Over ∧ k.Fits s.conn ∨ s.Over ∧ k.Ended s.conn := by
  have notOver : (∀ state, k.phase.covers state = true → state ≠ .done ∧ state ≠ .error) →
      ¬ s.Over := by
    rintro live (at' | at')
    · exact (live _ (place_covers place at')).1 rfl
    · exact (live _ (place_covers place at')).2 rfl
  cases phase : k.phase <;> rw [phase] at notOver <;> simp only [Course.Place, phase] at place
  case done => exact Or.inr ⟨Or.inl place.1, place.2⟩
  case failed => exact Or.inr ⟨Or.inr place.1, place.2⟩
  all_goals refine Or.inl ⟨notOver (by intro state; cases state <;> simp [Phase.covers]), ?_⟩
  case talking | reading | resolving => exact place.2.2.2.1
  case broken => exact place.2.2.2
  case pending | immediate | failing => exact place.2.1.fits
  case writing => exact place.2.fits
  case copying => exact place.2.1

theorem clean_accounted (clean : k.Clean) (fits : k.Fits c) : c.Accounted := by
  obtain ⟨noLeak, paired⟩ := clean
  have references := fits.references
  have footing := fits.footing
  have here : k.registered = true → c.originFd = k.socket := by
    intro on
    have originFd := fits.originFd
    simp only [Course.originFd, paired on, if_true] at originFd
    exact originFd
  have holds : ∀ fd, c.Holds fd ↔ fd = c.clientFd ∨ k.registered = true ∧ fd = k.socket := by
    refine fun fd => ⟨footing.held fd, ?_⟩
    rintro (rfl | ⟨on, rfl⟩)
    · exact footing.client.holds
    · exact (footing.origin on).holds
  refine ⟨?_, fun fd held => ?_, fun fd held => ?_, fits.released⟩
  · cases on : k.registered with
    | false =>
      refine ⟨[c.clientFd], by simp, ?_, fun fd => ?_⟩
      · rw [references, on, noLeak]
        rfl
      · rw [holds, on]
        simp
    | true =>
      refine ⟨[c.clientFd, k.socket], ?_, ?_, fun fd => ?_⟩
      · simp [footing.apart.symm]
      · rw [references, on, noLeak]
        rfl
      · rw [holds, on]
        simp
  · rcases (holds fd).mp held with same | ⟨on, same⟩
    · exact Or.inl same
    · exact Or.inr (same.trans (here on).symm)
  · rcases (holds fd).mp held with rfl | ⟨on, rfl⟩
    · exact footing.clientOpen
    · rw [← here on]
      refine footing.originOpen ?_
      rw [here on]
      exact valid_ne (footing.origin on).1

theorem clean_attempt {addr : List UInt8} {result : Option Errno} {taken : Bool} (clean : k.Clean)
    (immediate : result = none → taken = true)
    (pending : result = some .einprogress → taken = false → k.registered = false)
    (place : (k.attempt addr result taken).Place s) : (k.attempt addr result taken).Clean := by
  revert place
  unfold Course.attempt
  split
  · split
    · rename_i took
      intro place
      exact ⟨clean.1, fun _ => place.2.2.2.2.2.1⟩
    · rename_i refused
      intro _
      refine ⟨clean.1, fun on => ?_⟩
      rw [pending rfl (Bool.not_eq_true _ ▸ refused)] at on
      cases on
  · exact fun _ => clean
  · rw [immediate rfl]
    exact fun place => ⟨clean.1, fun _ => place.2.2.2.2.2⟩

theorem clean_same (clean : k.Clean) (leaked : k'.leaked = k.leaked)
    (registered : k'.registered = k.registered) (isOpen : k'.isOpen = k.isOpen) : k'.Clean := by
  unfold Course.Clean
  rw [leaked, registered, isOpen]
  exact clean

/-- The tries of a course in REQUEST_CONNECTING, whose next address is tried. -/
theorem retries_of {o : Outcome} (fd : Int) {a next : AddrInfo} {rest : List AddrInfo}
    (place : k.Place s) (phase : k.phase = .pending ∨ k.phase = .failing)
    (left : k.left = a :: next :: rest)
    (why : k.status ≠ .succeeded ∨ ∃ e, o.getsockopt = some (some e)) :
    k.Tries s.conn ∧ Retries s (.event .write fd o) o := by
  obtain ⟨at', tries⟩ : s.In .requestConnecting ∧ k.Tries s.conn := by
    rcases phase with phase | phase <;>
      · simp only [Course.Place, phase] at place
        exact ⟨place.1, place.2.1⟩
  refine ⟨tries, ⟨fd, rfl⟩, at', ?_, why.imp_left fun bad => ⟨_, tries.conn, bad⟩⟩
  rw [tries.fits.left, left]
  simp

theorem clean_retry {o : Outcome} {addr : List UInt8} {result : Option Errno} {taken : Bool}
    {left : List AddrInfo} (status : SocksReplyStatus) (clean : k.Clean) (fits : k.Fits s.conn)
    (keeps : KeepsCount s l) (retries : Retries s l o) (answer : result = connectResult o s.conn)
    (took : taken = decide s.conn.Registrable)
    (place : (({ k with left := left, status := status } : Course).attempt addr result taken).Place t) :
    (({ k with left := left, status := status } : Course).attempt addr result taken).Clean := by
  obtain ⟨atOnce, later⟩ := keeps.2 o retries
  refine clean_attempt (clean_same clean rfl rfl rfl) (fun none' => ?_) (fun pending _ => ?_) place
  · rw [took]
    exact decide_eq_true (atOnce (answer.symm.trans none'))
  · change k.registered = false
    by_contra on
    rw [Bool.not_eq_false] at on
    have originFd := fits.originFd
    simp only [Course.originFd, clean.2 on, if_true] at originFd
    refine later (answer.symm.trans pending) ?_
    rw [originFd]
    exact (fits.footing.origin on).registered

theorem clean_step (clean : k.Clean) (place : k.Place s) (keeps : KeepsCount s l)
    (step : k.Step act k') (place' : k'.Place t) (explains : Explains k s l t act) : k'.Clean := by
  have early : k.phase = .reading ∨ k.phase = .resolving → k.registered = false := by
    intro early
    rw [early_fresh place early]
    rfl
  cases step with
  | idle => exact clean
  | request | breakDown => exact ⟨rfl, fun on => nomatch on⟩
  | noNio => exact ⟨clean.1, fun _ => rfl⟩
  | first n result taken phase =>
    obtain ⟨o, m, starts, opened, nio, connect, took, -⟩ := explains
    refine clean_attempt ⟨clean.1, fun _ => rfl⟩ (fun none' => ?_) (fun _ _ => early phase) place'
    rw [took]
    exact decide_eq_true (keeps.1 o m starts opened nio (connect.trans none'))
  | retry result taken phase bad left =>
    obtain ⟨fd, o, rfl, answer, took⟩ := explains
    obtain ⟨tries, retries⟩ := retries_of fd place phase left (Or.inl bad)
    exact clean_retry k.status clean tries.fits keeps retries answer took place'
  | retryAfter error result taken pending ok left =>
    obtain ⟨fd, o, rfl, refused, answer, took⟩ := explains
    obtain ⟨tries, retries⟩ := retries_of fd place (Or.inl pending) left
      (Or.inr ⟨error, refused⟩)
    exact clean_retry _ clean tries.fits keeps retries answer took place'
  | giveUp =>
    refine ⟨clean.1, fun on => ?_⟩
    have on : (k.registered && !k.isOpen) = true := on
    rw [Bool.and_eq_true, Bool.not_eq_true'] at on
    exact nomatch (clean.2 on.1).symm.trans on.2
  | refuse | resolve | unresolved | noSocket | unanswered | established | refused | copy | close |
      fail => exact clean_same clean rfl rfl rfl

/-- What the selector has of a record is counted until the end, and gone after it. -/
theorem references_exact (start : JustAccepted true s) (run : Run Guarded s ls t)
    (keeps : ∀ p ∈ ls, KeepsCount p.1 p.2) :
    (¬ t.Over → t.conn.Accounted) ∧
      (t.Over → (∀ fd, ¬ t.conn.Holds fd) ∧ t.conn.calls.count .released = 1) := by
  obtain ⟨k, place, clean⟩ := course_run (C := KeepsCount) (G := Course.Clean)
    (fun clean place keeps step place' explains =>
      clean_step clean place keeps step place' explains)
    (accepted_place start) ⟨rfl, fun on => nomatch on⟩ run keeps
  rcases place_live place with ⟨notOver, fits⟩ | ⟨isOver, ended⟩
  · exact ⟨fun _ => clean_accounted clean fits, fun isOver => absurd isOver notOver⟩
  · exact ⟨fun notOver => absurd isOver notOver, fun _ => ended.2 clean⟩

end

/-! ## The first client -/

/-- Events that never connect at once, and whose writes connect to nothing. -/
theorem labels_keep {ls : List (Session × Label)} {es : List (Event × Int × Outcome)}
    (labels : ls.map (·.2) = es.map fun e => .event e.1 e.2.1 e.2.2)
    (fine : es.all (fun e => decide (e.2.2.connect ≠ none ∧
      (e.1 = .write → e.2.2.connect = some .ebadf))) = true) : ∀ p ∈ ls, KeepsCount p.1 p.2 := by
  intro p member
  have listed : p.2 ∈ ls.map (·.2) := List.mem_map_of_mem member
  rw [labels, List.mem_map] at listed
  obtain ⟨e, there, eq⟩ := listed
  obtain ⟨later, nothing⟩ := of_decide_eq_true (List.all_eq_true.mp fine e there)
  refine ⟨fun o n starts _ _ connect => ?_, fun o retries => ?_⟩
  · have label : ∃ ev fd, p.2 = .event ev fd o := by
      rcases starts with ⟨fd, _, label, -⟩ | ⟨fd, label, -⟩ <;> exact ⟨_, fd, label⟩
    obtain ⟨ev, fd, label⟩ := label
    obtain ⟨-, -, rfl⟩ := Label.event.inj (eq.trans label)
    exact absurd connect later
  · obtain ⟨⟨fd, label⟩, -⟩ := retries
    obtain ⟨write, -, rfl⟩ := Label.event.inj (eq.trans label)
    have answer : connectResult e.2.2 p.1.conn = some .ebadf := by
      unfold connectResult
      rw [nothing write, ite_self]
    rw [answer]
    exact ⟨fun none' => (nomatch none'), fun pending => (nomatch pending)⟩

/-- A client that is connected to its origin. -/
def connectedEvents : List (Event × Int × Outcome) :=
  let write : Outcome := { Outcome.fine with connect := some .ebadf }
  [received [0x05, 0x01, 0x00], (.write, 5, write), receivedOpening connectRequest, (.write, 6, write)]

theorem references_exact_first : ∃ t, firstClient connectedEvents = some t ∧ t.conn.Accounted := by
  have plays : (firstClient connectedEvents).any (fun t => decide (t.In .requestWrite)) = true := by
    decide +kernel
  obtain ⟨t, played, writing⟩ := (Option.any_eq_true _ _).mp plays
  have writing := of_decide_eq_true writing
  obtain ⟨s, ls, start, run, labels⟩ := firstClient_run played
  refine ⟨t, played, (references_exact start run (labels_keep labels (by decide))).1 ?_⟩
  rintro (done | error)
  · exact absurd (in_unique writing done) (by decide)
  · exact absurd (in_unique writing error) (by decide)

/-- The second address is tried on the socket of the first: the selector refuses it,
the socket is closed, and its item stays. -/
theorem poisoned_descriptor : ∃ s ls t, JustAccepted true s ∧ Run Guarded s ls t ∧ ¬ t.Over ∧
    t.conn.Holds 6 ∧ t.conn.isOpen 6 = false ∧ ¬ t.conn.Accounted := by
  have plays : (firstResolved twoAddresses).any (fun r => (play r [(.block, 5, opening),
      (.write, 6, { Outcome.fine with getsockopt := some (some .econnrefused) })]).any fun t =>
        decide (t.In .requestConnecting ∧ (t.conn.sel.fds 6).used = true ∧
          (t.conn.sel.fds 6).data = t.conn.self ∧ t.conn.isOpen 6 = false)) = true := by
    decide +kernel
  obtain ⟨r, resolved, plays⟩ := (Option.any_eq_true _ _).mp plays
  obtain ⟨t, played, facts⟩ := (Option.any_eq_true _ _).mp plays
  obtain ⟨connecting, used, data, closed⟩ := of_decide_eq_true facts
  obtain ⟨s, ls, start, before, -⟩ := firstResolved_run resolved
  obtain ⟨ms, after, -⟩ := play_run played
  refine ⟨s, _, t, start, before.append after, ?_, ⟨used, data⟩, closed, fun accounted => ?_⟩
  · rintro (done | error)
    · exact absurd (in_unique connecting done) (by decide)
    · exact absurd (in_unique connecting error) (by decide)
  · exact nomatch closed.symm.trans (accounted.isOpen 6 ⟨used, data⟩)

end SocksProxy
