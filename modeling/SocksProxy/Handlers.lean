import SocksProxy.Accounting
import SocksProxy.Management

/-!
# Every event finds its handler

A descriptor is watched only for what the current state handles, in both tables,
unless an attempt is accepted at once or a request cannot be allocated.
-/

namespace SocksProxy

open Lib

/-- The state that the next event finds has a handler for `e`. -/
def Session.Handles (s : Session) (e : Event) : Prop :=
  ∀ o fd, ∃ d, (statesOf s.conn.isSocks o fd)[s.stm.current.getD s.stm.initial]? = some d ∧
    (e.handler d).isSome = true

/-- The events for which the selector watches a descriptor of the record are handled. -/
def Session.Handled (s : Session) : Prop :=
  ∀ e fd, e ≠ .block → Deliverable e fd s.conn → s.Handles e

/-- The request of a SOCKS client is allocated, and no attempt is accepted at once. -/
def NoAbort (s : Session) (l : Label) : Prop :=
  (∀ e fd o, l = .event e fd o → s.conn.isSocks = true → s.LetsOn o →
      o.malloc 1 = true ∧ o.malloc 2 = true) ∧
    (∀ o n, Starts s l o → o.socket = some n → o.setNio = true → o.connect = none →
      ¬ s.conn.sel.Takes n) ∧
    ∀ o, Retries s l o → connectResult o s.conn = none → ¬ s.conn.Registrable

section
variable {k k' : Course} {c d : Conn} {s t : Session} {l : Label} {ls : List (Session × Label)}
  {act : Act} {e : Event} {o : Outcome} {fd : Int}

/-! ## The negotiation -/

theorem watched_write {i : FdInterest} (noBlock : e ≠ .block) (delivered : Deliverable e fd c)
    (interest : c.interestOf fd = i) : e = .read ∧ i.read = true ∨ e = .write ∧ i.write = true := by
  subst interest
  cases e with
  | read => exact Or.inl ⟨rfl, delivered.2.2⟩
  | write => exact Or.inr ⟨rfl, delivered.2.2⟩
  | block => exact absurd rfl noBlock

theorem talks_handled (talks : s.Talks) (noBlock : e ≠ .block)
    (delivered : Deliverable e s.conn.clientFd s.conn) : s.Handles e := by
  intro o fd
  unfold statesOf
  rcases talks with ⟨at', interest⟩ | ⟨at', interest⟩
  · obtain ⟨rfl, -⟩ | ⟨-, write⟩ := watched_write noBlock delivered interest
    · rcases at' with ⟨none', initial⟩ | current | current
      · rw [none', initial]
        cases s.conn.isSocks <;> exact ⟨_, rfl, rfl⟩
      · rw [current]
        cases s.conn.isSocks <;> exact ⟨_, rfl, rfl⟩
      · rw [current]
        cases s.conn.isSocks <;> exact ⟨_, rfl, rfl⟩
    · cases write
  · obtain ⟨-, read⟩ | ⟨rfl, -⟩ := watched_write noBlock delivered interest
    · cases read
    · rcases at' with current | current
      · rw [current]
        cases s.conn.isSocks <;> exact ⟨_, rfl, rfl⟩
      · rw [current]
        cases s.conn.isSocks <;> exact ⟨_, rfl, rfl⟩

/-! ## SOCKS connections -/

def Course.Handled (k : Course) : Prop := k.phase ≠ .broken ∧ k.phase ≠ .immediate

theorem socks_handles {state : SocksV5State} (at' : s.In state)
    (handler : ∀ o fd, (e.handler (state.entry o fd)).isSome = true) : s.Handles e := by
  intro o fd
  refine ⟨state.entry o fd, ?_, handler o fd⟩
  unfold statesOf
  rw [at'.1, at'.2, if_pos rfl]
  exact clientStatbl_get o fd state

theorem place_handled (place : k.Place s) (good : k.Handled) : s.Handled := by
  intro e fd noBlock delivered
  have holds : s.conn.Holds fd := ⟨delivered.1.2, delivered.2.1⟩
  have either : ∀ {i}, k.Fits s.conn → (fd = s.conn.clientFd → s.conn.interestOf fd = i) →
      (k.registered = true → fd = k.socket → s.conn.interestOf fd = opNoop) →
      e = .read ∧ i.read = true ∨ e = .write ∧ i.write = true := by
    intro i fits client origin
    rcases fits.footing.held fd holds with same | ⟨on, same⟩
    · exact watched_write noBlock delivered (client same)
    · rcases watched_write noBlock delivered (origin on same) with ⟨-, read⟩ | ⟨-, write⟩
      · cases read
      · cases write
  obtain ⟨notBroken, notImmediate⟩ := good
  cases phase : k.phase <;> simp only [Course.Place, phase] at place
  case talking =>
    obtain ⟨talks, -, eq, fits, -⟩ := place
    obtain rfl := client_held fits (by rw [eq]; rfl) holds
    exact talks_handled talks noBlock delivered
  case reading =>
    obtain ⟨at', reading, eq, fits, -⟩ := place
    obtain rfl := client_held fits (by rw [eq]; rfl) holds
    rcases watched_write noBlock delivered reading with ⟨rfl, -⟩ | ⟨-, write⟩
    · exact socks_handles at' (fun _ _ => rfl)
    · cases write
  case broken => exact absurd phase notBroken
  case resolving =>
    obtain ⟨at', noop, eq, fits, -⟩ := place
    obtain rfl := client_held fits (by rw [eq]; rfl) holds
    rcases watched_write noBlock delivered noop with ⟨-, read⟩ | ⟨-, write⟩
    · cases read
    · cases write
  case pending =>
    obtain ⟨at', tries, watches⟩ := place
    simp only [Course.Watches, phase] at watches
    rcases tries.fits.footing.held fd holds with rfl | ⟨-, rfl⟩
    · rcases watched_write noBlock delivered watches.1 with ⟨-, read⟩ | ⟨-, write⟩
      · cases read
      · cases write
    · rcases watched_write noBlock delivered watches.2.1 with ⟨-, read⟩ | ⟨rfl, -⟩
      · cases read
      · exact socks_handles at' (fun _ _ => rfl)
  case immediate => exact absurd phase notImmediate
  case failing =>
    obtain ⟨at', tries, watches⟩ := place
    simp only [Course.Watches, phase] at watches
    rcases either tries.fits (fun same => same ▸ watches.1)
      (fun on same => same ▸ watches.2.2 on) with ⟨-, read⟩ | ⟨rfl, -⟩
    · cases read
    · exact socks_handles at' (fun _ _ => rfl)
  case writing =>
    obtain ⟨at', writes⟩ := place
    rcases either writes.fits (fun same => same ▸ writes.client)
      (fun on same => same ▸ writes.origin on) with ⟨-, read⟩ | ⟨rfl, -⟩
    · cases read
    · exact socks_handles at' (fun _ _ => rfl)
  case copying =>
    obtain ⟨at', -⟩ := place
    cases e with
    | read => exact socks_handles at' (fun _ _ => rfl)
    | write => exact socks_handles at' (fun _ _ => rfl)
    | block => exact absurd rfl noBlock
  case done | failed =>
    rcases watched_write noBlock delivered (place.2.1 fd holds) with ⟨-, read⟩ | ⟨-, write⟩
    · cases read
    · cases write

theorem handled_attempt {addr : List UInt8} {result : Option Errno} {taken : Bool}
    (later : result = none → taken = false) : (k.attempt addr result taken).Handled := by
  unfold Course.attempt Course.Handled
  split
  · split <;> exact ⟨by simp [Course.fail], by simp [Course.fail]⟩
  · exact ⟨by simp [Course.fail], by simp [Course.fail]⟩
  · rw [later rfl]
    exact ⟨by simp [Course.fail], by simp [Course.fail]⟩

theorem handled_step (good : k.Handled) (place : k.Place s) (fine : NoAbort s l)
    (step : k.Step act k') (explains : Explains k s l t act) : k'.Handled := by
  obtain ⟨allocated, first, retried⟩ := fine
  have retry : ∀ {o : Outcome} {addr result taken} {left : List AddrInfo} {status},
      Retries s l o → result = connectResult o s.conn → taken = decide s.conn.Registrable →
      (({ k with left := left, status := status } : Course).attempt addr result taken).Handled := by
    intro o addr result taken left status retries answer took
    refine handled_attempt fun none' => ?_
    rw [took]
    exact decide_eq_false (retried o retries (answer.symm.trans none'))
  cases step with
  | idle => exact good
  | breakDown base talking =>
    obtain ⟨e, fd, o, label, lets, failed⟩ := explains
    have socks : s.conn.isSocks = true := by
      simp only [Course.Place, talking] at place
      exact place.2.2.2.1.socks
    obtain ⟨one, two⟩ := allocated e fd o label socks lets
    rcases failed with failed | failed
    · cases one.symm.trans failed
    · cases two.symm.trans failed
  | first n result taken early =>
    obtain ⟨o, m, starts, opened, nio, connect, took, -⟩ := explains
    refine handled_attempt fun none' => ?_
    rw [took]
    exact decide_eq_false (first o m starts opened nio (connect.trans none'))
  | retry result taken phase bad left =>
    obtain ⟨fd, o, rfl, answer, took⟩ := explains
    exact retry (retries_of fd place phase left (Or.inl bad)).2 answer took
  | retryAfter error result taken pending ok left =>
    obtain ⟨fd, o, rfl, refused, answer, took⟩ := explains
    exact retry (retries_of fd place (Or.inl pending) left (Or.inr ⟨error, refused⟩)).2 answer took
  | request | refuse | resolve | unresolved | noSocket | noNio | giveUp | unanswered | established |
      refused | copy | close | fail => exact ⟨fun eq => (by cases eq), fun eq => (by cases eq)⟩

/-! ## Management connections -/

/-- A session of the management table: it talks, manages, or is over. -/
structure Session.Administers (s : Session) : Prop where
  mng : s.conn.isSocks = false
  stage : s.conn.Footing (-1) false ∧ (s.Talks ∧ s.conn.Methods ∨ s.Manages) ∨
    Terminal false (s.stm.current.getD 0) ∧ ∀ fd, ¬ s.conn.Holds fd

theorem managed_footing (h : c.Footing (-1) false) (managed : c.Managed fd d) :
    d.Footing (-1) false :=
  footing_retuned [fd] h managed.same managed.tuned (managed.method h.method)

theorem talked_footing (h : c.Footing (-1) false) (talked : c.Talked fd d) : d.Footing (-1) false :=
  footing_retuned [fd] h talked.same talked.tuned (by rw [talked.method]; exact h.method)

/-- The end of a management connection takes out its one item. -/
theorem mngDone_ended (h : c.Footing (-1) false) (fin : finish false c = .ok d) (fd : Int) :
    ¬ d.Holds fd := by
  have ran : doneFd c.clientFd c = .ok d := fin
  have item := h.client
  obtain ⟨status, fds, -⟩ := unregister_eq handleClose c.sel c c.clientFd
  rw [if_pos item.registered] at status fds
  simp only [doneFd, valid_ne item.1, ne_eq, not_false_eq_true, if_true] at ran
  rw [if_pos (show (c.unregister c.clientFd).1 = .success from status), Except.ok.injEq] at ran
  have sel : d.sel.fds = Function.update c.sel.fds c.clientFd itemInit := by
    rw [← ran]
    exact fds
  have self : d.self = c.self := by
    obtain ⟨_, _, record, -⟩ := finish_record fin
    rw [record]
  intro holds
  unfold Conn.Holds at holds
  rw [sel, self] at holds
  by_cases same : fd = c.clientFd
  · rw [same, Function.update_self] at holds
    cases holds.1
  · rw [Function.update_of_ne same] at holds
    rcases h.held fd holds with eq | ⟨on, -⟩
    · exact same eq
    · cases on

theorem administers_event (h : s.Administers) (held : s.conn.Holds fd)
    (fired : handleEvent e o fd s = .ok t) : t.Administers := by
  obtain ⟨mng, ⟨footing, stage⟩ | ⟨-, none'⟩⟩ := h
  · obtain rfl : fd = s.conn.clientFd := by
      rcases footing.held fd held with same | ⟨on, -⟩
      · exact same
      · cases on
    have ending : ∀ {ret : Nat} {last : Conn}, Terminal false ret → t.stm.current = some ret →
        last.isSocks = false → last.Footing (-1) false → finish false last = .ok t.conn →
        t.Administers := by
      intro ret last terminal current kind footing fin
      refine ⟨?_, Or.inr ⟨by rw [current]; exact terminal, mngDone_ended footing fin⟩⟩
      obtain ⟨_, _, record, -⟩ := finish_record fin
      rw [record]
      exact kind
    rcases stage with ⟨talks, methods⟩ | manages
    · have on := talks_event talks methods ⟨footing.errorState, footing.doneState⟩ footing.method fired
      unfold Session.TalksOn at on
      rw [mng] at on
      rcases on with ⟨talks, methods, talked⟩ | ⟨ret, last, terminal, current, talked, fin⟩ |
          ⟨current, -, mid, talked, -, reading, arrival⟩
      · exact ⟨talked.same.isSocks.trans mng,
          Or.inl ⟨talked_footing footing talked, Or.inl ⟨talks, methods⟩⟩⟩
      · exact ending terminal current (talked.same.isSocks.trans mng) (talked_footing footing talked) fin
      · have arrival : mngRequestIndexInit o s.conn.clientFd mid = .ok t.conn := arrival
        obtain ⟨x, eq⟩ := mngRequestIndexInit_ok arrival
        have managed := client_managed mid s.conn.clientFd (.mngRequest x)
        rw [← eq] at managed
        have kind := (managed.same.isSocks.trans talked.same.isSocks).trans mng
        refine ⟨kind, Or.inl ⟨managed_footing (talked_footing footing talked) managed,
          Or.inr ⟨.requestReadIndex, by decide, ⟨kind, current⟩, ?_⟩⟩⟩
        rw [managed.same.clientFd, talked.same.clientFd, eq]
        exact reading
    · rcases manages_event manages fired with ⟨manages, managed⟩ |
          ⟨ret, last, terminal, current, managed, fin⟩
      · exact ⟨managed.same.isSocks.trans mng,
          Or.inl ⟨managed_footing footing managed, Or.inr manages⟩⟩
      · exact ending terminal current (managed.same.isSocks.trans mng)
          (managed_footing footing managed) fin
  · exact absurd held (none' fd)

theorem administers_framed (h : s.Administers) (f : s.conn.Framed d) :
    (⟨s.stm, d⟩ : Session).Administers := by
  obtain ⟨answer, record⟩ := f.record
  refine ⟨by rw [record]; exact h.mng, ?_⟩
  rcases h.stage with ⟨footing, stage⟩ | ⟨terminal, none'⟩
  · refine Or.inl ⟨f.footing footing, ?_⟩
    have client : d.interestOf d.clientFd = s.conn.interestOf s.conn.clientFd := by
      rw [record]
      exact interestOf_framed f footing.client
    rcases stage with ⟨talks, methods⟩ | ⟨state, listed, ⟨mng, current⟩, watched⟩
    · refine Or.inl ⟨?_, ?_⟩
      · unfold Session.Talks at talks ⊢
        rw [client]
        exact talks
      · rw [record]
        exact methods
    · exact Or.inr ⟨state, listed, ⟨by rw [record]; exact mng, current⟩, client.trans watched⟩
  · exact Or.inr ⟨terminal, fun fd held => none' fd (f.fresh fd held)⟩

theorem administers_step (h : s.Administers) (step : Guarded s l t) : t.Administers := by
  obtain ⟨allowed, fired⟩ := step
  cases l with
  | event e fd o =>
    have held : s.conn.Holds fd := ⟨allowed.1.1.2, allowed.1.2.1⟩
    cases e with
    | read => exact administers_event h held fired
    | write => exact administers_event h held fired
    | block => exact administers_event (administers_framed h (framed_takeJob fd s)) held fired
  | resolved answer fd =>
    obtain rfl := Except.ok.inj fired
    exact administers_framed h (framed_resolved answer _ s)
  | env w =>
    obtain rfl := Except.ok.inj fired
    exact administers_framed h (framed_env allowed)

theorem administers_handled (h : s.Administers) : s.Handled := by
  intro e fd noBlock delivered
  have holds : s.conn.Holds fd := ⟨delivered.1.2, delivered.2.1⟩
  rcases h.stage with ⟨footing, stage⟩ | ⟨-, none'⟩
  · obtain rfl : fd = s.conn.clientFd := by
      rcases footing.held fd holds with same | ⟨on, -⟩
      · exact same
      · cases on
    rcases stage with ⟨talks, -⟩ | ⟨state, listed, ⟨mng, current⟩, watched⟩
    · exact talks_handled talks noBlock delivered
    · intro o fd
      unfold statesOf
      rw [mng, current, if_neg (by decide)]
      refine ⟨state.entry o fd, clientMng_get o fd state, ?_⟩
      simp only [List.mem_cons, List.not_mem_nil, or_false] at listed
      rcases watched_write noBlock delivered watched with ⟨rfl, read⟩ | ⟨rfl, write⟩
      · rcases listed with rfl | rfl | rfl
        · rfl
        · rfl
        · cases read
      · rcases listed with rfl | rfl | rfl
        · cases write
        · cases write
        · rfl
  · exact absurd holds (none' fd)

theorem accepted_administers (start : JustAccepted false s) : s.Administers := by
  obtain ⟨footing, interest, stm, self, clientFd, clientAddr, record⟩ := accepted_footing start
  refine ⟨by rw [record]; rfl, Or.inl ⟨footing, Or.inl ⟨Or.inl ⟨Or.inl ⟨?_, ?_⟩, interest⟩, ?_⟩⟩⟩
  · rw [stm]
  · rw [stm]
    rfl
  · rw [record]
    intro d member
    cases member

/-- No event that the selector delivers is without a handler. -/
theorem never_aborts {isSocks : Bool} (start : JustAccepted isSocks s) (run : Run Guarded s ls t)
    (fine : ∀ p ∈ ls, NoAbort p.1 p.2) : t.Handled := by
  cases isSocks with
  | true =>
    obtain ⟨k, place, good⟩ := course_run (C := NoAbort) (G := Course.Handled)
      (fun good place fine step _ explains => handled_step good place fine step explains)
      (accepted_place start) ⟨fun eq => (nomatch eq), fun eq => (nomatch eq)⟩ run fine
    exact place_handled place good
  | false =>
    exact administers_handled
      (run.always (fun _ _ _ h step => administers_step h step) (accepted_administers start))

end

/-! ## The first client -/

/-- Events whose allocations succeed and that never connect at once. -/
theorem labels_handled {ls : List (Session × Label)} {es : List (Event × Int × Outcome)}
    (labels : ls.map (·.2) = es.map fun e => .event e.1 e.2.1 e.2.2)
    (fine : es.all (fun e => e.2.2.malloc 1 && e.2.2.malloc 2 &&
      decide (e.2.2.connect ≠ none)) = true) : ∀ p ∈ ls, NoAbort p.1 p.2 := by
  intro p member
  have listed : p.2 ∈ ls.map (·.2) := List.mem_map_of_mem member
  rw [labels, List.mem_map] at listed
  obtain ⟨e, there, eq⟩ := listed
  have good := List.all_eq_true.mp fine e there
  simp only [Bool.and_eq_true, decide_eq_true_eq] at good
  refine ⟨fun ev fd o label _ _ => ?_, fun o n starts _ _ connect => ?_, fun o retries connect => ?_⟩
  · obtain ⟨-, -, rfl⟩ := Label.event.inj (eq.trans label)
    exact good.1
  · have label : ∃ ev fd, p.2 = .event ev fd o := by
      rcases starts with ⟨fd, _, label, -⟩ | ⟨fd, label, -⟩ <;> exact ⟨_, fd, label⟩
    obtain ⟨ev, fd, label⟩ := label
    obtain ⟨-, -, rfl⟩ := Label.event.inj (eq.trans label)
    exact absurd connect good.2
  · obtain ⟨⟨fd, label⟩, -⟩ := retries
    obtain ⟨-, -, rfl⟩ := Label.event.inj (eq.trans label)
    unfold connectResult at connect
    split at connect
    · exact absurd connect good.2
    · cases connect

theorem never_aborts_first : ∃ t, firstClient firstConnect = some t ∧ t.Handled := by
  have plays : (firstClient firstConnect).isSome = true := by decide +kernel
  obtain ⟨t, played⟩ := Option.isSome_iff_exists.mp plays
  obtain ⟨s, ls, start, run, labels⟩ := firstClient_run played
  exact ⟨t, played, never_aborts start run (labels_handled labels (by decide))⟩

/-- The origin accepts at once: both descriptors are watched for reading, and
REQUEST_CONNECTING cannot read. -/
theorem accepted_at_once : ∃ s ls t, JustAccepted true s ∧ Run Guarded s ls t ∧
    Deliverable .read 5 t.conn ∧ t.In .requestConnecting ∧ ¬ t.Handled := by
  have plays : (firstClient (greeting ++ [(.read, 5, { Outcome.fine with
      recv := some connectRequest, socket := some 6, connect := none })])).any (fun t =>
        decide (t.In .requestConnecting ∧ Deliverable .read 5 t.conn)) = true := by decide +kernel
  obtain ⟨t, played, facts⟩ := (Option.any_eq_true _ _).mp plays
  obtain ⟨connecting, delivered⟩ := of_decide_eq_true facts
  obtain ⟨s, ls, start, run, -⟩ := firstClient_run played
  refine ⟨s, ls, t, start, run, delivered, connecting, fun handled => ?_⟩
  obtain ⟨d, there, handler⟩ := handled .read 5 (by decide) delivered .fine 5
  rw [connecting.2] at there
  unfold statesOf at there
  rw [connecting.1] at there
  obtain rfl := Option.some.inj there
  cases handler

end SocksProxy
