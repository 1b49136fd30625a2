import SocksProxy.Arrivals

/-!
# Every run of the server

The steps of the server, told apart, and what every run of them keeps.
-/

namespace SocksProxy

open Lib

/-- The attempts of every connection leave each item with its reference. -/
def Process.KeepsCount (p : Process) (l : Happening) : Prop :=
  ∀ e fd o a x, l = .event e fd o a → p.part (p.world.sel.fds fd).data = some x →
    SocksProxy.KeepsCount (view x p.world) (.event e fd o)

/-- The record that the callback of an item is for; a passive socket has none. -/
def Process.called (p : Process) (fd : Int) : Option (StateMachine × Socks5) :=
  match (p.world.sel.fds fd).handler with
  | .socksPassive | .mngPassive => none
  | .socks5 | .mng => p.part (p.world.sel.fds fd).data

/-- What a step did: a connection had an event, came, was refused, or got an answer. -/
inductive Process.Did (p : Process) : Happening → Process → Prop
  | turn {e : Event} {fd : Int} {o : Outcome} (a : Accepted) {key : Nat} {x : StateMachine × Socks5}
      {more : List Call} {marks : List Mark} {t : Session} :
      p.called fd = some x → Guarded (view x p.world) (.event e fd o) t →
      p.Turns key x e fd o more marks t →
      Did p (.event e fd o a) (p.become key t.leaves t.conn.toWorld)
  | arrival {isSocks : Bool} (fd : Int) (o : Outcome) {a : Accepted} {w : World} {s : Session} :
      p.called fd = none → p.Offers a → passiveAccept isSocks a p.world = .ok (w, some s) →
      Did p (.event .read fd o a) (p.become s.conn.self (some (s.stm, s.conn.toSocks5)) w)
  | refusal {isSocks : Bool} (fd : Int) (o : Outcome) {a : Accepted} {w : World} :
      p.called fd = none → p.Offers a → passiveAccept isSocks a p.world = .ok (w, none) →
      Did p (.event .read fd o a) ⟨w, p.part⟩
  | answer (answer : List AddrInfo) {k : Int × Nat} (queued : Bool) {x : StateMachine × Socks5} :
      k ∈ p.world.resolvers → p.part k.2 = some x →
      Did p (.resolved answer k queued)
        (p.become k.2 (resolverLeaves queued answer k (view x p.world)).leaves
          (resolverLeaves queued answer k (view x p.world)).conn.toWorld)

section
variable {base : Int → Bool} {p p' : Process} {l : Happening} {e : Event} {fd : Int} {o : Outcome}
  {a : Accepted} {x : StateMachine × Socks5}

/-- A job is for a descriptor that is registered. -/
theorem job_used (sound : p.Sound base) (member : fd ∈ p.world.sel.resolutionJobs) :
    (p.world.sel.fds fd).used = true := by
  obtain ⟨key, x, there, rfl⟩ := sound.jobs fd member
  obtain ⟨-, -, live⟩ := sound.live key x there
  obtain ⟨_, _, footing, -⟩ := sound_footing live
  exact footing.client.used

theorem sweep_nothing (strays : p.world.strays = []) : p.sweep = .ok p := by
  have same : ({ p.world with strays := [] } : World) = p.world := by rw [← strays]
  unfold Process.sweep
  rw [strays, same]
  rfl

theorem accept_did {isSocks : Bool} (o : Outcome) (passive : p.called fd = none) (offers : p.Offers a)
    (h : p.accept isSocks a = .ok p') : p.Did (.event .read fd o a) p' := by
  obtain ⟨⟨w, s⟩, accepted, h⟩ := bind_eq_ok.mp h
  cases s with
  | some s =>
    obtain rfl := Except.ok.inj h
    exact .arrival fd o passive offers accepted
  | none =>
    obtain rfl := Except.ok.inj h
    exact .refusal fd o passive offers accepted

/-- The call of an item of a record. -/
theorem turn_did (sound : p.Sound base) (keeps : p.KeepsCount (.event e fd o a))
    (there : p.part (p.world.sel.fds fd).data = some x) (called : p.called fd = some x) (permits : p.Permits (.event e fd o a))
    {t : Session} (fired : SocksProxy.fire (.event e fd o) (view x p.world) = .ok t)
    (swept : (p.settle (p.world.sel.fds fd).data t).sweep = .ok p') :
    p.Did (.event e fd o a) p' := by
  obtain ⟨ready, fresh, offers⟩ := permits
  obtain ⟨self, address, live⟩ := sound.live _ x there
  have used : (p.world.sel.fds fd).used = true := by
    cases e with
    | read => exact ready.1.2
    | write => exact ready.1.2
    | block => exact job_used sound ready
  have held : (view x p.world).conn.Holds fd := ⟨used, self.symm⟩
  have valid := holds_valid live held
  have delivered : Deliverable e fd (view x p.world).conn := by
    refine ⟨⟨valid, used⟩, self.symm, ?_⟩
    cases e with
    | read => exact ready.2
    | write => exact ready.2
    | block => exact ready
  have step : Guarded (view x p.world) (.event e fd o) t := ⟨⟨delivered, fresh⟩, fired⟩
  obtain ⟨more, marks, acts, counts, ends⟩ := sound_event live (sound_alone sound there fresh)
    (keeps e fd o a x rfl there) step
  have turns : p.Turns (p.world.sel.fds fd).data x e fd o more marks t :=
    ⟨there, held, fun block => by subst block; exact ready, fresh, fire_event.symm.trans fired, acts,
      counts, ends⟩
  have strays : (p.settle (p.world.sel.fds fd).data t).world.strays = [] :=
    (turns_moves sound turns).strays
  obtain rfl := Except.ok.inj ((sweep_nothing strays).symm.trans swept)
  exact .turn a called step turns

theorem step_did (sound : p.Sound base) (keeps : p.KeepsCount l) (step : p.Step l p') :
    p.Did l p' := by
  obtain ⟨permits, fired⟩ := step
  cases l with
  | event e fd o a =>
    simp only [Process.fire] at fired
    split at fired
    · rename_i dropped
      obtain ⟨rfl, unused⟩ := dropped
      exact nomatch (job_used sound permits.1).symm.trans unused
    · have record : ∀ {x}, p.part (p.world.sel.fds fd).data = some x → p.called fd = some x → (do
          let t ← SocksProxy.fire (.event e fd o) (view x p.world)
          (p.settle (p.world.sel.fds fd).data t).sweep) = .ok p' → p.Did (.event e fd o a) p' := by
        intro x there called fired
        obtain ⟨t, fired, swept⟩ := bind_eq_ok.mp fired
        exact turn_did sound keeps there called permits fired swept
      have called : p.called fd = match (p.world.sel.fds fd).handler with
        | .socksPassive | .mngPassive => none
        | .socks5 | .mng => p.part (p.world.sel.fds fd).data := rfl
      simp only [Process.call, Process.deliver] at fired
      cases handler : (p.world.sel.fds fd).handler <;> simp only [handler] at fired called
      case socksPassive | mngPassive =>
        split at fired
        · rename_i reads
          subst reads
          exact accept_did o called permits.2.2 fired
        · cases fired
      case socks5 | mng =>
        split at fired
        · rename_i x there
          exact record there (called.trans there) fired
        · cases fired
  | resolved answer k queued =>
    simp only [Process.fire] at fired
    split at fired
    · rename_i x there
      obtain rfl := Except.ok.inj fired
      exact .answer answer queued permits there
    · cases fired

/-! ## The invariant -/

/-- Whatever happens moves one record. -/
theorem did_moves (sound : p.Sound base) (did : p.Did l p') :
    ∃ key k' w, p' = p.become key k' w ∧ p.Moves base key k' w := by
  cases did with
  | turn a called step turns => exact ⟨_, _, _, rfl, turns_moves sound turns⟩
  | arrival fd o passive offers accepted =>
    obtain ⟨-, -, -, moves⟩ := accepted_moves sound offers accepted
    exact ⟨_, _, _, rfl, moves⟩
  | refusal fd o passive offers refused =>
    obtain ⟨key, absent, moves⟩ := refused_moves sound offers refused
    exact ⟨key, none, _, (become_none absent).symm, moves⟩
  | answer answer queued member there => exact ⟨_, _, _, rfl, resolved_moves sound member there⟩

theorem step_sound (sound : p.Sound base) (keeps : p.KeepsCount l) (step : p.Step l p') :
    p'.Sound base := by
  obtain ⟨key, k', w, rfl, moves⟩ := did_moves sound (step_did sound keeps step)
  exact moves_sound sound moves

end

end SocksProxy
