import SocksProxy.Accounting
import SocksProxy.Rooms
import SocksProxy.Turns

/-!
# What a live session owns

Between two events a session that keeps its count owns its two descriptors and the
items for them. An event changes nothing else, and the one that ends the session
closes both descriptors and releases the record once.
-/

namespace SocksProxy

open Lib

/-! ## Sound sessions -/

/-- A management session in progress. -/
structure Session.Serves (s : Session) : Prop where
  mng : s.conn.isSocks = false
  footing : s.conn.Footing (-1) false
  stage : s.Talks ∧ s.conn.Methods ∨ s.Manages
  bare : s.conn.originFd = -1
  references : s.conn.references = 1
  kept : .released ∉ s.conn.calls

/-- A session in progress, which kept its count so far. -/
def Session.Sound (s : Session) : Prop :=
  (∃ k : Course, k.Place s ∧ k.Clean ∧ ¬ s.Over) ∨ s.Serves

/-- A session that ended. -/
structure Session.Left (s : Session) : Prop where
  gone : ∀ fd, ¬ s.conn.Holds fd
  released : s.conn.calls.count .released = 1
  client : s.conn.isOpen s.conn.clientFd = false
  origin : s.conn.isOpen s.conn.originFd = false
  idle : ¬ s.In .requestResolv

/-- The descriptors of the connection, the one it may open included. -/
def Conn.Owns (c : Conn) (o : Outcome) (fd : Int) : Prop :=
  fd = c.clientFd ∨ fd = c.originFd ∧ fd ≠ -1 ∨ ∃ n : Nat, o.socket = some n ∧ fd = n

/-- No other record has an item on a descriptor of the connection. -/
def Conn.Alone (c : Conn) (o : Outcome) : Prop :=
  ∀ fd, c.Owns o fd → (c.sel.fds fd).used = true → c.Holds fd

/-- The session that the event finds: the job of a `block` is off the list before. -/
def Session.taken (s : Session) (e : Event) (fd : Int) : Session :=
  match e with
  | .block => takeJob fd s
  | _ => s

/-- What an event of a session counts. -/
structure Session.Counts (s : Session) (t : Session) (o : Outcome) (more : List Call)
    (marks : List Mark) : Prop where
  threads : more.count .threadCreated =
    if s.In .requestRead ∧ t.In .requestResolv ∧ o.pthreadCreate = 0 then 1 else 0
  counted : more.count .counted ≤
    if s.In .requestConnecting ∧ ¬ t.In .requestConnecting then 1 else 0
  ended : marks.count .ended = if s.In .copy ∧ t.In .done then 1 else 0
  bytes : bytesOf marks = if s.In .copy then movedBy more else 0

section
variable {k : Course} {c d : Conn} {s t : Session} {e : Event} {o : Outcome} {fd socket : Int}
  {reg : Bool} {state next : SocksV5State} {more : List Call} {marks : List Mark} {own : Int → Prop}

theorem fire_event : fire (.event e fd o) s = handleEvent e o fd (s.taken e fd) := by
  cases e <;> rfl

theorem framed_taken (e : Event) (fd : Int) (s : Session) : s.conn.Framed (s.taken e fd).conn := by
  have same : s.conn.Framed s.conn := ⟨⟨_, rfl⟩, id, fun _ _ => rfl, fun _ held => held⟩
  cases e with
  | block => exact framed_takeJob fd s
  | read => exact same
  | write => exact same

/-! ## What a session owns -/

theorem footing_mine (footing : c.Footing socket reg) (alone : c.Alone o) : c.Mine (c.Owns o) where
  client := .inl rfl
  origin := by
    by_cases bare : c.originFd = -1
    · exact .inl bare
    · exact .inr (.inr (.inl ⟨rfl, bare⟩))
  nought := by
    rintro (client | ⟨-, bare⟩ | ⟨n, -, number⟩)
    · exact valid_ne footing.client.1 client.symm
    · exact bare rfl
    · omega
  negative := footing.negative
  span := footing.span
  owner := by
    have item : ∀ {f}, c.Item f → (c.sel.fds f).owner = (c.handler, c.self) := by
      intro f item
      rw [Item.owner, item.2]
    intro f owns used
    rcases footing.held f (alone f owns used) with rfl | ⟨on, rfl⟩
    · exact item footing.client
    · exact item (footing.origin on)

theorem clean_paired (clean : k.Clean) (fits : k.Fits c) (on : k.registered = true) :
    c.originFd = k.socket := by
  have originFd := fits.originFd
  rw [Course.originFd, clean.2 on, if_pos rfl] at originFd
  exact originFd

/-- There is no origin socket before the attempts. -/
theorem place_bare (place : k.Place s) (at' : s.In state)
    (early : state ∉ [SocksV5State.requestConnecting, .requestWrite, .copy]) (going : ¬ s.Over) :
    s.conn.originFd = -1 := by
  have elsewhere : ∀ {state'}, state' ∈ [SocksV5State.requestConnecting, .requestWrite, .copy] →
      ¬ s.In state' := by
    intro state' listed there
    obtain rfl := in_unique at' there
    exact early listed
  cases phase : k.phase <;> simp only [Course.Place, phase] at place
  case talking =>
    obtain ⟨-, -, eq, fits, -⟩ := place
    rw [fits.originFd, eq]
    rfl
  case reading | resolving =>
    obtain ⟨-, -, eq, fits, -⟩ := place
    rw [fits.originFd, eq]
    rfl
  case broken =>
    obtain ⟨-, -, eq, fits⟩ := place
    rw [fits.originFd, eq]
    rfl
  case pending | immediate | failing => exact absurd place.1 (elsewhere (by decide))
  case writing => exact absurd place.1 (elsewhere (by decide))
  case copying => exact absurd place.1 (elsewhere (by decide))
  case done => exact absurd (.inl place.1) going
  case failed => exact absurd (.inr place.1) going

theorem place_poised (place : k.Place s) (going : ¬ s.Over) (at' : s.In state)
    (alone : s.conn.Alone o) :
    s.conn.Poised (s.conn.Owns o) state := by
  have fits : k.Fits s.conn := by
    rcases place_live place with ⟨-, fits⟩ | ⟨isOver, -⟩
    · exact fits
    · exact absurd isOver going
  refine ⟨footing_mine fits.footing alone, at'.1, fun early => place_bare place at' early going,
    fun connecting conn origin => ?_, fun connecting registered => ?_, fun copying => ?_⟩
  · subst connecting
    have tries := place_tries place at'
    have same : conn = ⟨s.conn.clientFd, -1, k.status⟩ :=
      OrigSt.conn.inj (origin.symm.trans tries.conn)
    rw [same]
    exact .inl rfl
  · have references := fits.references
    cases on : k.registered with
    | true =>
      rw [on] at references
      simp only [Bool.toNat_true] at references
      omega
    | false =>
      have holds := alone _ (.inr (.inl ⟨rfl, valid_ne registered.1⟩)) registered.2
      rcases fits.footing.held _ holds with same | ⟨on', -⟩
      · rcases fits.footing.originFd with socket | none'
        · exact absurd (same.symm.trans socket) (client_ne_socket fits)
        · exact absurd none' (valid_ne registered.1)
      · exact nomatch on.symm.trans on'
  · subst copying
    have phase := (copying_phase place).mpr at'
    simp only [Course.Place, phase] at place
    obtain ⟨-, -, -, I, shape, -⟩ := place
    exact ⟨I, shape⟩

/-! ## The events of a SOCKS session -/

theorem turn_counts (at' : s.In state) (next' : t.In next) (turn : Turn state next o more marks) :
    s.Counts t o more marks := by
  have before : ∀ x, s.In x ↔ state = x :=
    fun x => ⟨in_unique at', fun same => same ▸ at'⟩
  have after : ∀ x, t.In x ↔ next = x :=
    fun x => ⟨in_unique next', fun same => same ▸ next'⟩
  constructor
  · rw [turn.threads]
    exact if_congr (by rw [before, after]) rfl rfl
  · refine Nat.le_trans turn.counted (Nat.le_of_eq ?_)
    exact if_congr (by rw [before, after]) rfl rfl
  · rw [turn.ended]
    exact if_congr (by rw [before, after]) rfl rfl
  · rw [turn.bytes]
    exact if_congr (by rw [before]) rfl rfl

/-- Nothing is counted of an event outside REQUEST_READ and COPY. -/
theorem plain_counts (early : ¬ s.In .requestRead) (before : ¬ s.In .copy)
    (threads : more.count .threadCreated = 0) (counted : more.count .counted = 0)
    (going : .ended ∉ marks) (still : bytesOf marks = 0) : s.Counts t o more marks := by
  constructor
  · rw [if_neg fun both => early both.1]
    exact threads
  · rw [counted]
    exact Nat.zero_le _
  · rw [if_neg fun both => before both.1]
    exact List.count_eq_zero.mpr going
  · rw [if_neg before]
    exact still

/-- An event of a SOCKS session, the one that arrives in it included. -/
theorem socks_session {free : Prop} (place : k.Place s) (going : ¬ s.Over)
    (alone : s.conn.Alone o) (mineFd : s.conn.Owns o fd)
    (h : handleEvent e o fd s = .ok t) :
    ∃ more marks, s.conn.Acts (s.conn.Owns o) fd free more marks t.conn ∧ s.Counts t o more marks ∧
      (t.Over → t.conn.isOpen t.conn.clientFd = false ∧ t.conn.isOpen t.conn.originFd = false) := by
  have opened : ∀ n : Nat, o.socket = some n → s.conn.Owns o n :=
    fun n number => .inr (.inr ⟨n, number, rfl⟩)
  have ends : ∀ {next : SocksV5State}, t.conn.isSocks = true → t.stm.current = some next.num →
      t.In next ∧ (t.Over → next = .done ∨ next = .error) := by
    intro next socks current
    have there : t.In next := ⟨socks, current⟩
    exact ⟨there, fun isOver => isOver.imp (in_unique there) (in_unique there)⟩
  rcases place_state place with ⟨state, at'⟩ | ⟨-, first, initial⟩
  · have poised := place_poised place going at' alone
    obtain ⟨next, more, marks, current, acts, turn, -, closed⟩ := socks_turn at' poised mineFd opened h
    obtain ⟨there, terminal⟩ := ends (acts.isSocks.trans at'.1) current
    exact ⟨more, marks, acts, turn_counts at' there turn, fun isOver => closed (terminal isOver)⟩
  · have notIn : ∀ x, ¬ s.In x := fun x there => nomatch first.symm.trans there.2
    obtain ⟨fits, bare⟩ : k.Fits s.conn ∧ s.conn.originFd = -1 := by
      cases phase : k.phase <;> simp only [Course.Place, phase] at place
      case talking =>
        obtain ⟨-, -, eq, fits, -⟩ := place
        refine ⟨fits, ?_⟩
        rw [fits.originFd, eq]
        rfl
      all_goals exact absurd place.1 (notIn _)
    obtain ⟨start, init, h⟩ := first_event first initial h
    have began : s.conn.Behaves (s.conn.Owns o) fd free start := helloReadInit_behaves init
    have socks : start.isSocks = true := (behaves_isSocks began).trans fits.socks
    have bare' : start.originFd = -1 := by
      rcases helloReadInit_ok init with rfl | rfl <;> exact bare
    have poised : start.Poised (s.conn.Owns o) .helloRead :=
      ⟨(footing_mine fits.footing alone).behaves began, socks, fun _ => bare',
        fun eq => absurd eq (by decide), fun eq => absurd eq (by decide), fun eq => absurd eq (by decide)⟩
    obtain ⟨more, marks, acts, plain⟩ := began
    obtain ⟨next, more', marks', current, acts', turn, -, closed⟩ :=
      socks_turn ⟨socks, rfl⟩ poised mineFd opened h
    obtain ⟨-, terminal⟩ := ends (acts'.isSocks.trans socks) current
    refine ⟨_, _, acts.trans acts', ?_, fun isOver => closed (terminal isOver)⟩
    apply plain_counts (notIn _) (notIn _)
    · rw [List.count_append, plain.threads, turn.threads]
      rfl
    · rw [List.count_append, plain.counted, Nat.zero_add]
      exact Nat.le_zero.mp turn.counted
    · rw [List.mem_append]
      refine fun member => member.elim plain.going ?_
      exact List.count_eq_zero.mp turn.ended
    · rw [bytesOf_append, plain.still, turn.bytes]
      rfl

/-! ## The events of a management session -/

theorem Conn.Acts.weaken {free free' : Prop} (h : c.Acts own fd free more marks d)
    (frees : free → free') : c.Acts own fd free' more marks d :=
  { h with
    settings := h.settings.imp_left frees
    touches := Relation.ReflTransGen.mono (fun _ _ touch => touch.weaken frees) _ _ h.touches }

theorem serves_state (serves : s.Serves) :
    s.stm.current = none ∧ s.stm.initial = SocksV5State.helloRead.num ∨ ∃ place, s.InMng place := by
  rcases serves.stage with ⟨talks, -⟩ | ⟨place, -, at', -⟩
  · rcases talks with ⟨first | current | current, -⟩ | ⟨current | current, -⟩
    · exact .inl first
    · exact .inr ⟨.helloRead, serves.mng, current⟩
    · exact .inr ⟨.userpassRead, serves.mng, current⟩
    · exact .inr ⟨.helloWrite, serves.mng, current⟩
    · exact .inr ⟨.userpassWrite, serves.mng, current⟩
  · exact .inr ⟨place, at'⟩

theorem mng_session (serves : s.Serves) (alone : s.conn.Alone o) (mineFd : s.conn.Owns o fd)
    (h : handleEvent e o fd s = .ok t) :
    ∃ more marks, s.conn.Acts (s.conn.Owns o) fd (s.InMng .requestRead) more marks t.conn ∧
      s.Counts t o more marks ∧
      (Terminal false (t.stm.current.getD 0) → t.conn.isOpen t.conn.clientFd = false) := by
  have notIn : ∀ x, ¬ s.In x := fun x there => nomatch there.1.symm.trans serves.mng
  have mine := footing_mine serves.footing alone
  rcases serves_state serves with ⟨first, initial⟩ | ⟨place, at'⟩
  · obtain ⟨start, init, h⟩ := first_event first initial h
    have began : s.conn.Behaves (s.conn.Owns o) fd (s.InMng .requestRead) start :=
      helloReadInit_behaves init
    have mng : start.isSocks = false := (behaves_isSocks began).trans serves.mng
    have mine' := mine.behaves began
    obtain ⟨more, marks, acts, plain⟩ := began
    have arrived : (⟨{ s.stm with current := some SocksV5State.helloRead.num }, start⟩ :
        Session).InMng .helloRead := ⟨mng, rfl⟩
    obtain ⟨more', marks', acts', threads, counted, ended, still, closed⟩ := mng_turn arrived mine' mineFd h
    refine ⟨_, _, acts.trans (acts'.weaken fun eq => nomatch eq), ?_, closed⟩
    apply plain_counts (notIn _) (notIn _)
    · rw [List.count_append, plain.threads, threads]
    · rw [List.count_append, plain.counted, counted]
    · rw [List.mem_append]
      exact fun member => member.elim plain.going ended
    · rw [bytesOf_append, plain.still, still]
  · obtain ⟨more, marks, acts, threads, counted, ended, still, closed⟩ := mng_turn at' mine mineFd h
    exact ⟨more, marks, acts.weaken fun same => same ▸ at',
      plain_counts (notIn _) (notIn _) threads counted ended still, closed⟩

/-- The end of a management connection releases the record, whose one reference its item is. -/
theorem mngDone_released (footing : c.Footing (-1) false) (bare : c.originFd = -1)
    (references : c.references = 1) (kept : .released ∉ c.calls) (fin : finish false c = .ok d) :
    d.calls.count .released = 1 := by
  have fin : doneFd c.clientFd c = .ok d := fin
  have mine : c.Mine (c.Owns .none) := by
    refine footing_mine footing ?_
    rintro f (rfl | ⟨rfl, valid⟩ | ⟨n, none', -⟩) -
    · exact footing.client.holds
    · exact absurd bare valid
    · cases none'
  obtain ⟨acts, -⟩ : c.Acts (c.Owns .none) 0 False (c.parting c.clientFd) [] d ∧ _ :=
    doneFd_acts mine (.inr mine.client) fin
  rw [acts.calls, List.count_append, List.count_eq_zero.mpr kept,
    parting_released _ (valid_ne footing.client.1), if_pos references]

theorem serves_event (serves : s.Serves) (negative : t.conn.isOpen (-1) = false)
    (closed : Terminal false (t.stm.current.getD 0) → t.conn.isOpen t.conn.clientFd = false)
    (h : handleEvent e o s.conn.clientFd s = .ok t) : t.Serves ∨ t.Left := by
  obtain ⟨mng, footing, stage, bare, references, kept⟩ := serves
  have goes : ∀ {u : Session}, s.conn.Same u.conn → u.conn.Footing (-1) false →
      (u.Talks ∧ u.conn.Methods ∨ u.Manages) → .released ∉ u.conn.calls → u.Serves :=
    fun same footing stage kept => ⟨same.isSocks.trans mng, footing, stage,
      same.originFd.trans bare, same.references.trans references, kept⟩
  have ending : ∀ {ret : Nat} {last : Conn}, Terminal false ret → t.stm.current = some ret →
      s.conn.Same last → last.Footing (-1) false → .released ∉ last.calls →
      finish false last = .ok t.conn → t.Left := by
    intro ret last terminal current same footing kept fin
    refine ⟨mngDone_ended footing fin,
      mngDone_released footing (same.originFd.trans bare) (same.references.trans references) kept fin,
      ?_, ?_, ?_⟩
    · apply closed
      rw [current]
      exact terminal
    · obtain ⟨_, _, record, -⟩ := finish_record fin
      have origin : t.conn.originFd = last.originFd := by rw [record]
      rw [origin, same.originFd, bare]
      exact negative
    · intro resolving
      obtain ⟨_, _, record, -⟩ := finish_record fin
      have socks := resolving.1
      rw [record] at socks
      exact nomatch socks.symm.trans (same.isSocks.trans mng)
  have negotiated : ∀ {u : Conn}, s.conn.Talked s.conn.clientFd u → .released ∉ u.calls := by
    intro u talked
    obtain ⟨more, calls, negotiates⟩ := talked.calls
    rw [calls, List.mem_append]
    exact fun member => member.elim kept fun member => negotiates _ member
  rcases stage with ⟨talks, methods⟩ | manages
  · have on := talks_event talks methods ⟨footing.errorState, footing.doneState⟩ footing.method h
    unfold Session.TalksOn at on
    rw [mng] at on
    rcases on with ⟨talks, methods, talked⟩ | ⟨ret, last, terminal, current, talked, fin⟩ |
        ⟨current, -, mid, talked, -, reading, arrival⟩
    · exact .inl (goes talked.same (talked_footing footing talked) (.inl ⟨talks, methods⟩)
        (negotiated talked))
    · exact .inr (ending terminal current talked.same (talked_footing footing talked)
        (negotiated talked) fin)
    · have arrival : mngRequestIndexInit o s.conn.clientFd mid = .ok t.conn := arrival
      obtain ⟨x, eq⟩ := mngRequestIndexInit_ok arrival
      have managed := client_managed mid s.conn.clientFd (.mngRequest x)
      rw [← eq] at managed
      have same := talked.same.trans managed.same
      refine .inl (goes same (managed_footing (talked_footing footing talked) managed) (.inr ?_) ?_)
      · refine ⟨.requestReadIndex, by decide, ⟨same.isSocks.trans mng, current⟩, ?_⟩
        rw [same.clientFd, eq]
        exact reading
      · have calls : t.conn.calls = mid.calls := by rw [eq]
        rw [calls]
        exact negotiated talked
  · have moved : ∀ {u : Conn}, s.conn.Managed s.conn.clientFd u → .released ∉ u.calls := by
      intro u managed
      obtain ⟨more, calls, moving⟩ := managed.calls
      rw [calls, List.mem_append]
      refine fun member => member.elim kept fun member => ?_
      obtain ⟨_, _, recv | send⟩ := moving _ member
      · cases recv
      · cases send
    rcases manages_event manages h with ⟨manages, managed⟩ |
        ⟨ret, last, terminal, current, managed, fin⟩
    · exact .inl (goes managed.same (managed_footing footing managed) (.inr manages) (moved managed))
    · exact .inr (ending terminal current managed.same (managed_footing footing managed)
        (moved managed) fin)

/-! ## Every event -/

theorem sound_accounted (sound : s.Sound) : s.conn.Accounted := by
  rcases sound with ⟨k, place, clean, going⟩ | serves
  · rcases place_live place with ⟨-, fits⟩ | ⟨isOver, -⟩
    · exact clean_accounted clean fits
    · exact absurd isOver going
  · obtain ⟨mng, footing, stage, bare, references, kept⟩ := serves
    have holds : ∀ fd, s.conn.Holds fd ↔ fd = s.conn.clientFd := by
      refine fun fd => ⟨fun held => ?_, fun same => same ▸ footing.client.holds⟩
      rcases footing.held fd held with same | ⟨on, -⟩
      · exact same
      · cases on
    refine ⟨⟨[s.conn.clientFd], by simp, references.symm, fun fd => ?_⟩, ?_, ?_, kept⟩
    · rw [holds, List.mem_singleton]
    · exact fun fd held => .inl ((holds fd).mp held)
    · intro fd held
      rw [(holds fd).mp held]
      exact footing.clientOpen

theorem sound_footing (sound : s.Sound) : ∃ socket reg, s.conn.Footing socket reg ∧
    (reg = true → s.conn.originFd = socket) := by
  rcases sound with ⟨k, place, clean, going⟩ | serves
  · rcases place_live place with ⟨-, fits⟩ | ⟨isOver, -⟩
    · exact ⟨_, _, fits.footing, clean_paired clean fits⟩
    · exact absurd isOver going
  · exact ⟨_, _, serves.footing, fun on => nomatch on⟩

theorem over_framed (f : s.conn.Framed d) : (⟨s.stm, d⟩ : Session).Over ↔ s.Over := by
  obtain ⟨answer, record⟩ := f.record
  have socks : d.isSocks = s.conn.isSocks := by rw [record]
  unfold Session.Over Session.In
  rw [socks]

theorem serves_framed (serves : s.Serves) (f : s.conn.Framed d) : (⟨s.stm, d⟩ : Session).Serves := by
  obtain ⟨mng, footing, stage, bare, references, kept⟩ := serves
  have administers := administers_framed ⟨mng, .inl ⟨footing, stage⟩⟩ f
  obtain ⟨answer, record⟩ := f.record
  have footing' : d.Footing (-1) false := f.footing footing
  refine ⟨administers.mng, footing', ?_, ?_, ?_, ?_⟩
  · rcases administers.stage with ⟨-, stage⟩ | ⟨-, gone⟩
    · exact stage
    · exact absurd footing'.client.holds (gone _)
  · rw [record]
    exact bare
  · rw [record]
    exact references
  · rw [record]
    exact kept

/-- A step that is no event of the session leaves it sound. -/
theorem sound_framed (sound : s.Sound) (f : s.conn.Framed d) : (⟨s.stm, d⟩ : Session).Sound := by
  rcases sound with ⟨k, place, clean, going⟩ | serves
  · exact .inl ⟨k, place_framed place f, clean, fun isOver => going ((over_framed f).mp isOver)⟩
  · exact .inr (serves_framed serves f)

/-- An event of a sound session touches what is its own. It leaves the session sound, or
ends it. -/
theorem sound_event (sound : s.Sound) (alone : s.conn.Alone o) (keeps : KeepsCount s (.event e fd o))
    (step : Guarded s (.event e fd o) t) :
    ∃ more marks, (s.taken e fd).conn.Acts (s.conn.Owns o) fd (s.InMng .requestRead) more marks t.conn ∧
      s.Counts t o more marks ∧
      (t.Sound ∧ .released ∉ more ∨ t.Left ∧ more.count .released = 1) := by
  have before := step
  obtain ⟨⟨delivered, -⟩, fired⟩ := step
  have fired : handleEvent e o fd (s.taken e fd) = .ok t := fire_event.symm.trans fired
  have held : s.conn.Holds fd := ⟨delivered.1.2, delivered.2.1⟩
  have mineFd : s.conn.Owns o fd := by
    rcases (sound_accounted sound).own fd held with client | origin
    · exact .inl client
    · exact .inr (.inl ⟨origin, valid_ne delivered.1.1⟩)
  have framed := framed_taken e fd s
  have same : (s.taken e fd).stm = s.stm ∧ (s.taken e fd).conn.toSocks5 = s.conn.toSocks5 := by
    cases e <;> exact ⟨rfl, rfl⟩
  obtain ⟨stm, record⟩ := same
  have owns : (s.taken e fd).conn.Owns o = s.conn.Owns o := by
    unfold Conn.Owns
    rw [record]
  have stands : ∀ x, (s.taken e fd).In x ↔ s.In x := by
    intro x
    unfold Session.In
    rw [record, stm]
  have alone' : (s.taken e fd).conn.Alone o := by
    intro f mine used
    rw [owns] at mine
    cases e <;> exact alone f mine used
  have counted : ∀ {more marks}, (s.taken e fd).Counts t o more marks → s.Counts t o more marks := by
    intro more marks counts
    constructor
    · rw [counts.threads]
      exact if_congr (by rw [stands]) rfl rfl
    · refine Nat.le_trans counts.counted (Nat.le_of_eq ?_)
      exact if_congr (by rw [stands]) rfl rfl
    · rw [counts.ended]
      exact if_congr (by rw [stands]) rfl rfl
    · rw [counts.bytes]
      exact if_congr (by rw [stands]) rfl rfl
  have final : ∀ {more marks}, (s.taken e fd).conn.Acts (s.conn.Owns o) fd (s.InMng .requestRead)
      more marks t.conn → t.Left → more.count .released = 1 := by
    intro more marks acts left
    have calls := acts.calls
    rw [record] at calls
    have released := left.released
    rw [calls, List.count_append,
      List.count_eq_zero.mpr (sound_accounted sound).unreleased, Nat.zero_add] at released
    exact released
  have kept : ∀ {more marks}, (s.taken e fd).conn.Acts (s.conn.Owns o) fd (s.InMng .requestRead)
      more marks t.conn → t.Sound → .released ∉ more := by
    intro more marks acts sound' member
    have unreleased := (sound_accounted sound').unreleased
    rw [acts.calls, List.mem_append] at unreleased
    exact unreleased (.inr member)
  rcases sound with ⟨k, place, clean, going⟩ | serves
  · have place' : k.Place (s.taken e fd) := by
      have eq : s.taken e fd = ⟨s.stm, (s.taken e fd).conn⟩ := by rw [← stm]
      rw [eq]
      exact place_framed place framed
    have going' : ¬ (s.taken e fd).Over := by
      unfold Session.Over
      rw [stands, stands]
      exact going
    obtain ⟨more, marks, acts, counts, closed⟩ :=
      socks_session place' going' alone' (owns ▸ mineFd) fired
    rw [owns] at acts
    refine ⟨more, marks, acts, counted counts, ?_⟩
    obtain ⟨act, k', follows, there, explains⟩ := step_advances place before
    have clean' := clean_step clean place keeps follows there explains
    rcases place_live there with ⟨still, -⟩ | ⟨isOver, ended⟩
    · have sound' : t.Sound := .inl ⟨k', there, clean', still⟩
      exact .inl ⟨sound', kept acts sound'⟩
    · obtain ⟨gone, released⟩ := ended.2 clean'
      obtain ⟨client, origin⟩ := closed isOver
      have idle : ¬ t.In .requestResolv := fun resolving =>
        isOver.elim (fun done => absurd (in_unique resolving done) (by decide))
          (fun failed => absurd (in_unique resolving failed) (by decide))
      have left : t.Left := ⟨gone, released, client, origin, idle⟩
      exact .inr ⟨left, final acts left⟩
  · have serves' : (s.taken e fd).Serves := by
      have eq : s.taken e fd = ⟨s.stm, (s.taken e fd).conn⟩ := by rw [← stm]
      rw [eq]
      exact serves_framed serves framed
    have there : (s.taken e fd).InMng .requestRead → s.InMng .requestRead := by
      unfold Session.InMng
      rw [record, stm]
      exact id
    obtain ⟨more, marks, acts, counts, closed⟩ := mng_session serves' alone' (owns ▸ mineFd) fired
    rw [owns] at acts
    have acts := acts.weaken there
    refine ⟨more, marks, acts, counted counts, ?_⟩
    have onClient : fd = (s.taken e fd).conn.clientFd := by
      rw [record]
      rcases serves.footing.held fd held with client | ⟨on, -⟩
      · exact client
      · cases on
    have mine := footing_mine serves'.footing alone'
    have negative : t.conn.isOpen (-1) = false :=
      (acts.isOpen _ (owns ▸ mine.nought)).trans mine.negative
    have fired : handleEvent e o (s.taken e fd).conn.clientFd (s.taken e fd) = .ok t := by
      rw [← onClient]
      exact fired
    rcases serves_event serves' negative closed fired with serving | left
    · exact .inl ⟨.inr serving, kept acts (.inr serving)⟩
    · exact .inr ⟨left, final acts left⟩

end

end SocksProxy
