import SocksProxy.Boot
import SocksProxy.Passage

/-!
# What the client is told

The reply that is sent before the relay starts, and what it stands for.
-/

namespace SocksProxy

open Lib

section
variable {k k' : Course} {s t u : Session} {l : Label} {ls ms : List (Session × Label)} {act : Act}

/-- No course is refused for want of a resolver. -/
theorem explains_not_refused (explains : Explains k s l t act) (resolves : ¬ NoResolver s l)
    (status : SocksReplyStatus) : act ≠ .refuse status := by
  rintro rfl
  exact resolves explains

theorem attempt_not_writing (k : Course) (addr : List UInt8) (result : Option Errno) (taken : Bool) :
    (k.attempt addr result taken).phase ≠ .writing := by
  rcases attempt_phase k addr result taken with phase | phase | phase <;> rw [phase] <;> decide

theorem writing_phase (place : k.Place s) (at' : s.In .requestWrite) : k.phase = .writing := by
  have covers := place_covers place at'
  revert covers
  cases k.phase <;> simp [Phase.covers]

/-- A course that writes goes on writing, or to the relay, or ends. -/
theorem writing_step (phase : k.phase = .writing) (step : k.Step act k') :
    act = .idle ∧ k' = k ∨
      act = .copy ∧ k.status = .succeeded ∧ k' = { k with phase := .copying } ∨
      act = .close ∧ k.status ≠ .succeeded ∧ k' = { k with phase := .done } ∨
      act = .fail ∧ k' = { k with phase := .failed } := by
  cases step <;> simp_all

/-! ## COPY only after success -/

/-- A course that writes a success has counted an open, registered, connected socket. -/
def Course.Honest (k : Course) : Prop :=
  k.phase = .writing → k.status = .succeeded →
    k.said = [.succeeded] ∧ k.established = true ∧ k.registered = true ∧ k.isOpen = true

theorem honest_step (honest : k.Honest) (place : k.Place s) (resolves : ¬ NoResolver s l)
    (step : k.Step act k') (explains : Explains k s l t act) : k'.Honest := by
  have failed : ∀ {status : SocksReplyStatus}, status ≠ .succeeded → (k.answer status).Honest :=
    fun bad _ good => absurd good bad
  cases step with
  | idle => exact honest
  | refuse status => exact absurd rfl (explains_not_refused explains resolves status)
  | unresolved => exact failed (by decide)
  | giveUp _ bad => exact fun _ good => absurd good bad
  | unanswered => exact failed (by decide)
  | refused error => exact failed (errnoToSocks_ne error)
  | established pending good =>
    have facts := place
    simp only [Course.Place, pending] at facts
    obtain ⟨-, -, watches⟩ := facts
    simp only [Course.Watches, pending] at watches
    obtain ⟨-, -, registered, isOpen, silent⟩ := watches
    intro _ _
    refine ⟨?_, rfl, registered, isOpen⟩
    simp [Course.answer, Course.say, silent good]
  | retry | retryAfter | first => exact fun writing => absurd writing (attempt_not_writing _ _ _ _)
  | noSocket | noNio | request | breakDown | resolve | copy | close | fail =>
    exact fun writing => by cases writing

/-- What the client was told last is the success, and the origin's descriptor is a
registered socket that was found connected and was counted. -/
structure Conn.Justified (c : Conn) : Prop where
  reply : replyBytes .succeeded <:+ sentTo c.clientFd c.calls
  registered : c.sel.Registered c.originFd
  connected : .getsockopt c.originFd (some none) ∈ c.calls
  counted : .counted ∈ c.calls

theorem copy_after_success (start : JustAccepted true s) (run : Run Guarded s ls t)
    (resolves : ∀ p ∈ ls, ¬ NoResolver p.1 p.2) (at' : t.In .requestWrite) (step : Guarded t l u) :
    u.In .requestWrite ∨ u.In .done ∨ u.In .error ∨ u.In .copy ∧ u.conn.Justified := by
  obtain ⟨k, place, honest⟩ := course_run (G := Course.Honest)
    (fun honest place resolves step _ explains => honest_step honest place resolves step explains)
    (accepted_place start) (fun writing => nomatch writing) run resolves
  have phase := writing_phase place at'
  obtain ⟨act, k', follows, place', explains⟩ := step_advances place step
  rcases writing_step phase follows with ⟨rfl, rfl⟩ | ⟨rfl, good, rfl⟩ | ⟨rfl, -, rfl⟩ | ⟨rfl, rfl⟩
  · simp only [Course.Place, phase] at place'
    exact Or.inl place'.1
  · obtain ⟨said, established, registered, isOpen⟩ := honest phase good
    obtain ⟨copying, fits, -⟩ := place'
    have here : u.conn.originFd = k.socket := by
      have originFd := fits.originFd
      simp only [Course.originFd, isOpen, if_true] at originFd
      exact originFd
    obtain ⟨counted, connected⟩ := fits.established established
    have told : sentTo u.conn.clientFd u.conn.calls = k.base ++ repliesOf k.said := explains phase
    refine Or.inr (Or.inr (Or.inr ⟨copying, ⟨?_, ?_, ?_, counted⟩⟩))
    · rw [told, said]
      exact List.suffix_append _ _
    · rw [here]
      exact (fits.footing.origin registered).registered
    · rw [here]
      exact connected
  · exact Or.inr (Or.inl place'.1)
  · exact Or.inr (Or.inr (Or.inl place'.1))

end

/-- The runs of these events get their keys and their threads. -/
theorem labels_resolve {ls : List (Session × Label)} {es : List (Event × Int × Outcome)}
    (labels : ls.map (·.2) = es.map fun e => .event e.1 e.2.1 e.2.2)
    (fine : es.all (fun e => e.2.2.mallocKey && decide (e.2.2.pthreadCreate ≠ -1)) = true) :
    ∀ p ∈ ls, ¬ NoResolver p.1 p.2 := by
  rintro p member ⟨fd, o, parser, label, -, -, -, refused⟩
  have listed : p.2 ∈ ls.map (·.2) := List.mem_map_of_mem member
  rw [labels, List.mem_map] at listed
  obtain ⟨e, there, eq⟩ := listed
  have good := List.all_eq_true.mp fine e there
  simp only [Bool.and_eq_true, decide_eq_true_eq] at good
  rw [label] at eq
  obtain ⟨-, -, rfl⟩ := Label.event.inj eq
  rcases refused with key | thread
  · exact absurd (good.1.symm.trans key) (by decide)
  · exact good.2 thread

/-- The first client connects to its origin. -/
def firstConnect : List (Event × Int × Outcome) :=
  greeting ++ [receivedOpening connectRequest, (.write, 6, .fine)]

theorem copy_after_success_first : ∃ t u, firstClient firstConnect = some t ∧
    play t [(.write, 5, .fine)] = some u ∧ u.In .copy ∧
    (u.In .requestWrite ∨ u.In .done ∨ u.In .error ∨ u.In .copy ∧ u.conn.Justified) := by
  have plays : (firstClient firstConnect).any (fun t => decide (t.In .requestWrite) &&
      (play t [(.write, 5, .fine)]).any fun u => decide (u.In .copy)) = true := by decide +kernel
  obtain ⟨t, played, plays⟩ := (Option.any_eq_true _ _).mp plays
  obtain ⟨at', plays⟩ := (Bool.and_eq_true _ _).mp plays
  obtain ⟨u, last, copying⟩ := (Option.any_eq_true _ _).mp plays
  obtain ⟨s, ls, start, run, labels, step⟩ := firstClient_step played last
  have resolves := labels_resolve labels (by decide)
  exact ⟨t, u, played, last, of_decide_eq_true copying,
    copy_after_success start run resolves (of_decide_eq_true at') step⟩

/-- The key of a domain's request cannot be allocated: the client is told of the
failure, and the relay starts without an origin. -/
def keylessRequest : List (Event × Int × Outcome) :=
  greeting ++ [(.read, 5, { Outcome.fine with recv := some domainRequest, mallocKey := false })]

theorem copy_after_failure : ∃ s ls t l u, JustAccepted true s ∧ Run Guarded s ls t ∧
    t.In .requestWrite ∧ Guarded t l u ∧ u.In .copy ∧
    replyBytes .generalSocksServerFailure <:+ sentTo u.conn.clientFd u.conn.calls ∧
    ¬ (u.In .requestWrite ∨ u.In .done ∨ u.In .error ∨ u.In .copy ∧ u.conn.Justified) := by
  have plays : (firstClient keylessRequest).any (fun t => decide (t.In .requestWrite) &&
      (play t [(.write, 5, .fine)]).any fun u => decide (u.In .copy) &&
        decide (replyBytes .generalSocksServerFailure <:+ sentTo u.conn.clientFd u.conn.calls) &&
        decide (Call.counted ∉ u.conn.calls)) = true := by decide +kernel
  obtain ⟨t, played, plays⟩ := (Option.any_eq_true _ _).mp plays
  obtain ⟨at', plays⟩ := (Bool.and_eq_true _ _).mp plays
  obtain ⟨u, last, facts⟩ := (Option.any_eq_true _ _).mp plays
  simp only [Bool.and_eq_true, decide_eq_true_eq] at facts
  obtain ⟨⟨copying, told⟩, uncounted⟩ := facts
  obtain ⟨s, ls, start, run, labels, step⟩ := firstClient_step played last
  refine ⟨s, ls, t, _, u, start, run, of_decide_eq_true at', step, copying, told, ?_⟩
  rintro (writing | done | error | ⟨-, justified⟩)
  · exact absurd (in_unique writing copying) (by decide)
  · exact absurd (in_unique done copying) (by decide)
  · exact absurd (in_unique error copying) (by decide)
  · exact uncounted justified.counted

end SocksProxy
