import SocksProxy.Boot
import SocksProxy.Passage

/-!
# What the dissector sees of the relay

`copy_read` hands what it receives to the dissector before the bytes join the buffer, so
whatever the relay received was inspected before it is sent. What the read buffer holds
when the relay starts was received in an earlier state: nothing inspects it.
-/

namespace SocksProxy

open Lib

/-- What `copy_read` hands to `dissec_consume`. -/
def copyReadInspects (o : Outcome) (fd : Int) (c : Conn) : List UInt8 :=
  match copyPtr fd c with
  | none => []
  | some side =>
    if c.passwordDissectors = 0x00 then (recvBytes o (bufferWritePtr (c.buffer side.rb))).getD []
    else []

/-- The bytes from one side that a step has inspected. -/
def inspected (side : Side) (p : Session × Label) : List UInt8 :=
  match p.2 with
  | .event .read fd o =>
    if p.1.In .copy ∧ copyPtr fd p.1.conn = some side then copyReadInspects o fd p.1.conn else []
  | _ => []

/-- The session that a step leaves. -/
def stepped (p : Session × Label) : Option Session :=
  match fire p.2 p.1 with
  | .ok t => some t
  | .error _ => none

/-- What a relay event has inspected is what the dissector ran on: `dissec_consume` of these
bytes takes the parser and the heap from before it to after it. -/
def Dissected (p : Session × Label) : Prop :=
  ∀ e fd o t, p.2 = .event e fd o → p.1.In .copy → stepped p = some t →
    dissecConsume (p.1.conn.users.slots p.1.conn.userIndex).name
        (inspected .client p ++ inspected .orig p) (p.1.conn.heap, p.1.conn.dissecParser) =
      .ok (t.conn.heap, t.conn.dissecParser)

/-- The bytes that a step in COPY sends to the origin. -/
def relayed (p : Session × Label) : List UInt8 :=
  if p.1.In .copy then
    ((stepped p).map fun t =>
      sentTo p.1.conn.originFd (t.conn.calls.drop p.1.conn.calls.length)).getD []
  else []

/-- What the read buffer holds when a step enters COPY. -/
def pipelined (p : Session × Label) : List UInt8 :=
  if ¬ p.1.In .copy ∧ (stepped p).any (fun t => decide (t.In .copy)) = true then
    bufferReadPtr p.1.conn.readBuffer
  else []

section
variable {k k' : Course} {s t : Session} {l : Label} {ls : List (Session × Label)} {act : Act}
  {o : Outcome} {fd : Int} {e : Event} {c c' : Conn} {I : Side → FdInterest} {ret : Nat}

/-! ## What the dissector runs on -/

/-- The parser and the heap are as they were. -/
def Conn.Undissected (c d : Conn) : Prop := d.heap = c.heap ∧ d.dissecParser = c.dissecParser

theorem Conn.Undissected.trans {a b d : Conn} (h : a.Undissected b) (h' : b.Undissected d) :
    a.Undissected d :=
  ⟨h'.1.trans h.1, h'.2.trans h.2⟩

theorem setBuffer_undissected (c : Conn) (r : BufferRef) (b : Buffer) :
    c.Undissected (c.setBuffer r b) := by
  cases r <;> exact ⟨rfl, rfl⟩

theorem copyFinish_undissected {side : Side} (shape : c.Copying I)
    (h : copyFinish side c = .ok (ret, c')) : c.Undissected c' := by
  obtain ⟨sel, metrics, rfl, -⟩ := copyFinish_ok shape h
  exact ⟨rfl, rfl⟩

theorem copyEnds_undissected {side : Side} {how otherHow : How}
    {drop otherDrop : FdInterest → FdInterest} (shape : c.Copying I)
    (h : (copyClose side ⟨c.fdOf side, side.rb, side.wb, I side, side.other⟩ how otherHow drop
      otherDrop c >>= fun c => copyFinish side c) = .ok (ret, c')) : c.Undissected c' := by
  obtain ⟨d, closed, finished⟩ := bind_eq_ok.mp h
  obtain ⟨J, shape', -, -, client, orig, rfl⟩ := copyClose_ok shape closed
  obtain ⟨heap, parser⟩ := copyFinish_undissected shape' finished
  exact ⟨heap, parser⟩

/-- The dissector is run on these bytes, before anything is sent. -/
theorem copyRead_inspects (shape : c.Copying I) (h : copyRead o fd c = .ok (ret, c')) :
    dissecConsume (c.users.slots c.userIndex).name (copyReadInspects o fd c) (c.heap, c.dissecParser) =
      .ok (c'.heap, c'.dissecParser) := by
  simp only [copyRead] at h
  split at h
  · cases h
  · rename_i side found
    obtain rfl := copyPtr_some found
    have handed : copyReadInspects o (c.fdOf side) c = if c.passwordDissectors = 0x00 then
        (recvBytes o (bufferWritePtr (c.buffer side.rb))).getD [] else [] := by
      simp only [copyReadInspects, found]
    rw [handed]
    simp only [shape side, ok_bind, ne_eq, not_true_eq_false, if_false] at h
    have logged : ∀ call, (c.log call).Copying I := fun _ s => shape s
    split at h
    · rename_i got
      obtain ⟨heap, parser⟩ := copyEnds_undissected (logged _) h
      simp only [got, Option.getD_none, ite_self, dissecConsume, heap, parser]
      rfl
    · rename_i got
      obtain ⟨heap, parser⟩ := copyEnds_undissected (logged _) h
      simp only [got, Option.getD_some, ite_self, dissecConsume, heap, parser]
      rfl
    · rename_i byte bytes got
      have joins : ∀ (d : Conn) {r : BufferRef} {b : Buffer}, d.Copying I →
          copyFinish side (d.setBuffer r b) = .ok (ret, c') → d.Undissected c' :=
        fun d r b shape finished => (setBuffer_undissected d r b).trans
          (copyFinish_undissected (copying_setBuffer shape r b) finished)
      simp only [got, Option.getD_some]
      by_cases on : c.passwordDissectors = 0x00
      · have on' : (c.log (.recv (c.fdOf side)
            (recvBytes o (bufferWritePtr (c.buffer side.rb))))).passwordDissectors = 0x00 := on
        rw [if_pos on'] at h
        obtain ⟨left, inspects, finished⟩ := bind_eq_ok.mp h
        obtain ⟨heap, parser⟩ := joins { c.log _ with
          heap := left.1, dissecParser := left.2, metrics := _ } (fun s => shape s) finished
        rw [if_pos on, heap, parser]
        exact inspects
      · have off : (c.log (.recv (c.fdOf side)
            (recvBytes o (bufferWritePtr (c.buffer side.rb))))).passwordDissectors ≠ 0x00 := on
        rw [if_neg off] at h
        obtain ⟨heap, parser⟩ := joins { c.log _ with metrics := _ } (fun s => shape s) h
        rw [if_neg on, heap, parser]
        rfl

/-- Sending bytes does not run the dissector. -/
theorem copyWrite_undissected (shape : c.Copying I) (h : copyWrite o fd c = .ok (ret, c')) :
    c.Undissected c' := by
  simp only [copyWrite] at h
  split at h
  · cases h
  · rename_i side found
    obtain rfl := copyPtr_some found
    simp only [shape side, ok_bind, ne_eq, not_true_eq_false, if_false] at h
    have logged : ∀ call, (c.log call).Copying I := fun _ s => shape s
    split at h
    · obtain ⟨heap, parser⟩ := copyEnds_undissected (logged _) h
      exact ⟨heap, parser⟩
    · rename_i bytes got
      let sent : Conn := { c.log (.send (c.fdOf side) (sentBytes o (c.buffer side.wb))) with
        metrics := countWrite c.metrics bytes.length }
      have shape' : sent.Copying I := fun s => shape s
      obtain ⟨heap, parser⟩ := (setBuffer_undissected sent side.wb _).trans
        (copyFinish_undissected (copying_setBuffer shape' side.wb _) h)
      exact ⟨heap, parser⟩

theorem handleClose_heap (item : Item) (c : Conn) : (handleClose item c).heap = c.heap := by
  unfold handleClose
  cases item.handler with
  | socks5 =>
    simp only [socks5Destroy]
    split
    · split <;> rfl
    · rfl
  | mng =>
    simp only [mngDestroy]
    split
    · split <;> rfl
    · rfl
  | socksPassive | mngPassive => rfl

theorem doneFd_heap (h : doneFd fd c = .ok c') : c'.heap = c.heap := by
  have unregistered : (c.unregister fd).2.heap = c.heap := by
    change (selectorUnregisterFd handleClose c.sel c fd).2.2.heap = c.heap
    rw [(unregister_eq handleClose c.sel c fd).2.2.2.2]
    split
    · exact handleClose_heap _ c
    · rfl
  simp only [doneFd] at h
  split at h
  · split at h
    · rw [← Except.ok.inj h]
      exact unregistered
    · cases h
  · rw [← Except.ok.inj h]

/-- Nor does the end of the connection. -/
theorem finish_undissected (h : finish true c = .ok c') : c.Undissected c' := by
  obtain ⟨references, ended, record, -⟩ := finish_record h
  have closed : socksv5Done c = .ok c' := h
  obtain ⟨d, first, second⟩ := bind_eq_ok.mp closed
  exact ⟨(doneFd_heap second).trans (doneFd_heap first), by rw [record]⟩

/-! ## One relay event -/

theorem stepped_of (step : Guarded s l t) : stepped (s, l) = some t := by
  unfold stepped
  rw [step.2]

/-- What the client's side received is what was inspected of it. -/
theorem inspected_received {mid : Conn} {more : List Call} (at' : s.In .copy)
    (shape : s.conn.Copying I) (distinct : s.conn.clientFd ≠ s.conn.originFd)
    (on : s.conn.passwordDissectors = 0x00)
    (ran : e = .read ∧ copyRead o fd s.conn = .ok (ret, mid) ∨
      e = .write ∧ copyWrite o fd s.conn = .ok (ret, mid))
    (calls : mid.calls = s.conn.calls ++ more) :
    inspected .client (s, .event e fd o) = receivedFrom s.conn.clientFd more := by
  have silent : ∀ side how otherHow, receivedFrom s.conn.clientFd
      (shutdowns s.conn.toSocks5 side how otherHow) = [] := by
    intro side how otherHow
    unfold shutdowns receivedFrom
    split <;> rfl
  rcases ran with ⟨rfl, ran⟩ | ⟨rfl, ran⟩
  · obtain ⟨side, I', found, -, received⟩ := copyRead_ok shape ran
    obtain rfl := copyPtr_some found
    have inspects : copyReadInspects o (s.conn.fdOf side) s.conn =
        (recvBytes o (bufferWritePtr (s.conn.buffer side.rb))).getD [] := by
      simp only [copyReadInspects, found, on, if_true]
    have here : inspected .client (s, .event .read (s.conn.fdOf side) o) =
        if side = .client then (recvBytes o (bufferWritePtr (s.conn.buffer side.rb))).getD []
        else [] := by
      simp only [inspected, at', true_and, found, Option.some.injEq, inspects]
    have mine : ∀ got, receivedFrom s.conn.clientFd [.recv (s.conn.fdOf side) got] =
        if side = .client then got.getD [] else [] := by
      intro got
      cases side with
      | client => cases got <;> simp [receivedFrom, Call.received, Socks5.fdOf]
      | orig => cases got <;> simp [receivedFrom, Call.received, Socks5.fdOf, distinct.symm]
    rw [here]
    rcases received with ⟨bytes, -, got, -, -, -, made⟩ | ⟨got, eq, -, -, -, -, made⟩
    · obtain rfl := List.append_cancel_left (calls.symm.trans made)
      rw [mine, got]
    · obtain rfl := List.append_cancel_left (calls.symm.trans made)
      rw [eq, ← List.singleton_append, receivedFrom_append, silent, List.append_nil, mine]
  · obtain ⟨side, I', found, -, sent⟩ := copyWrite_ok shape ran
    rcases sent with ⟨bytes, -, -, -, -, made⟩ | ⟨-, -, -, -, made⟩
    · obtain rfl := List.append_cancel_left (calls.symm.trans made)
      rfl
    · obtain rfl := List.append_cancel_left (calls.symm.trans made)
      rw [← List.singleton_append, receivedFrom_append, silent]
      rfl

/-- An event of COPY: what it sends comes from the front of the buffer, and what it
inspects joins the end. -/
theorem copying_accounts (at' : s.In .copy) (shape : s.conn.Copying I)
    (distinct : s.conn.clientFd ≠ s.conn.originFd) (on : s.conn.passwordDissectors = 0x00)
    (step : Guarded s (.event e fd o) t) (waits : e ≠ .block) :
    relayed (s, .event e fd o) <+: bufferReadPtr s.conn.readBuffer ++
        inspected .client (s, .event e fd o) ∧
      (t.In .copy → relayed (s, .event e fd o) ++ bufferReadPtr t.conn.readBuffer =
        bufferReadPtr s.conn.readBuffer ++ inspected .client (s, .event e fd o)) := by
  have handled : handleEvent e o fd s = .ok t := by
    cases e with
    | read | write => exact step.2
    | block => exact absurd rfl waits
  obtain ⟨ret, mid, ran, stm, goes⟩ := copy_event at' shape handled
  obtain ⟨more, calls, moves⟩ := relay_moves shape distinct ran
  obtain ⟨taken, put, ⟨took, gave⟩, n, cut, left, -⟩ := moves .client
  have seen := inspected_received at' shape distinct on ran calls
  have whole : put ++ bufferReadPtr mid.readBuffer = bufferReadPtr s.conn.readBuffer ++ taken := by
    change bufferReadPtr mid.readBuffer = (bufferReadPtr s.conn.readBuffer).drop n ++ taken at left
    rw [left, cut, ← List.append_assoc]
    exact congrArg (· ++ taken) (List.take_append_drop n _)
  have sends : ∀ ended : List Call, (∀ call ∈ ended, call.Ending) →
      t.conn.calls = mid.calls ++ ended → relayed (s, .event e fd o) = put := by
    intro ended quiet history
    simp only [relayed, if_pos at', stepped_of step, Option.map_some, Option.getD_some, history,
      calls, List.append_assoc, List.drop_left, sentTo_append, sent_ending quiet, List.append_nil]
    exact gave
  change receivedFrom s.conn.clientFd more = taken at took
  rw [seen, took]
  rcases goes with ⟨rfl, same⟩ | ⟨rfl, fin⟩
  · have sent := sends [] (fun _ member => nomatch member) (by rw [same, List.append_nil])
    rw [sent, same]
    exact ⟨⟨_, whole⟩, fun _ => whole⟩
  · obtain ⟨references, ended, record, quiet⟩ := finish_record fin
    have sent := sends ended quiet (by rw [record])
    rw [sent]
    refine ⟨⟨_, whole⟩, fun copying => ?_⟩
    have now := copying.2
    rw [stm] at now
    exact absurd (Option.some.inj now) (by decide)

/-- A relay event runs the dissector on what it has inspected. -/
theorem copying_dissected (at' : s.In .copy) (shape : s.conn.Copying I) (step : Guarded s l t) :
    Dissected (s, l) := by
  rintro e fd o t' rfl - left
  obtain rfl := Option.some.inj ((stepped_of step).symm.trans left)
  by_cases waits : e = .block
  · subst waits
    obtain ⟨handler, mid, next, picked, -⟩ := socks_event (s := takeJob fd s) at' step.2
    cases picked
  have handled : handleEvent e o fd s = .ok t := by
    cases e with
    | read | write => exact step.2
    | block => exact absurd rfl waits
  obtain ⟨ret, mid, ran, -, goes⟩ := copy_event at' shape handled
  have ends : mid.Undissected t.conn := by
    rcases goes with ⟨-, same⟩ | ⟨-, fin⟩
    · rw [same]
      exact ⟨rfl, rfl⟩
    · exact finish_undissected fin
  rw [ends.1, ends.2]
  rcases ran with ⟨rfl, ran⟩ | ⟨rfl, ran⟩
  · obtain ⟨side, I', found, -⟩ := copyRead_ok shape ran
    have whole : inspected .client (s, .event .read fd o) ++ inspected .orig (s, .event .read fd o) =
        copyReadInspects o fd s.conn := by
      cases side <;> simp [inspected, at', found]
    change dissecConsume _ (inspected .client (s, .event .read fd o) ++
      inspected .orig (s, .event .read fd o)) _ = _
    rw [whole]
    exact copyRead_inspects shape ran
  · obtain ⟨heap, parser⟩ := copyWrite_undissected shape ran
    rw [heap, parser]
    rfl

/-! ## A whole run -/

/-- What the steps of a run sent, and what they inspected, once the buffer that the relay
started with is counted. -/
def Course.Accounts (k : Course) (ls : List (Session × Label)) (s : Session) : Prop :=
  match k.phase with
  | .copying => ls.flatMap relayed ++ bufferReadPtr s.conn.readBuffer =
      ls.flatMap pipelined ++ ls.flatMap (inspected .client)
  | .done | .failed => ls.flatMap relayed <+: ls.flatMap pipelined ++ ls.flatMap (inspected .client)
  | _ => ls.flatMap relayed = [] ∧ ls.flatMap pipelined = [] ∧ ls.flatMap (inspected .client) = []

theorem outside_copy (out : ¬ s.In .copy) :
    relayed (s, l) = [] ∧ inspected .client (s, l) = [] := by
  refine ⟨if_neg out, ?_⟩
  unfold inspected
  split
  · exact if_neg fun here => out here.1
  · rfl

theorem stays_outside (step : Guarded s l t) (out : ¬ t.In .copy) : pipelined (s, l) = [] := by
  refine if_neg fun enters => out ?_
  have inside := enters.2
  rw [stepped_of step, Option.any_some] at inside
  exact of_decide_eq_true inside

/-- The relay starts with the read buffer that the reply was sent with. -/
theorem enters_buffer (at' : s.In .requestWrite) (inside : t.In .copy) (step : Guarded s l t) :
    t.conn.readBuffer = s.conn.readBuffer := by
  obtain ⟨fd, mid, arrived, same⟩ := enters_copy at' inside step
  obtain ⟨-, -, buffers, -⟩ := copyInit_ok arrived
  have kept : t.conn.readBuffer = mid.readBuffer := congrFun buffers .readBuffer
  exact kept.trans same

/-- A course that is over stays as it is. -/
theorem step_going (follows : k.Step act k') : k' = k ∨ k.phase ≠ .done ∧ k.phase ≠ .failed := by
  cases follows with
  | idle => exact Or.inl rfl
  | resolve phase | unresolved phase | unanswered phase | request _ phase | breakDown _ phase
  | refuse _ phase | established phase | refused _ phase | copy phase | retryAfter _ _ _ phase =>
    exact Or.inr ⟨by rw [phase]; decide, by rw [phase]; decide⟩
  | noSocket _ phase | noNio _ _ phase | first _ _ _ phase | retry _ _ phase | giveUp phase =>
    exact Or.inr ⟨by rcases phase with phase | phase <;> rw [phase] <;> decide,
      by rcases phase with phase | phase <;> rw [phase] <;> decide⟩
  | close phase =>
    exact Or.inr ⟨by rcases phase with phase | phase | ⟨phase, -⟩ <;> rw [phase] <;> decide,
      by rcases phase with phase | phase | ⟨phase, -⟩ <;> rw [phase] <;> decide⟩
  | fail phase =>
    exact Or.inr ⟨by rcases phase with phase | phase | phase <;> rw [phase] <;> decide,
      by rcases phase with phase | phase | phase <;> rw [phase] <;> decide⟩

/-- Before the relay there is nothing to account for. -/
theorem accounts_early (accounts : k.Accounts ls s) (before : k.phase ≠ .copying)
    (going : k.phase ≠ .done ∧ k.phase ≠ .failed) :
    ls.flatMap relayed = [] ∧ ls.flatMap pipelined = [] ∧ ls.flatMap (inspected .client) = [] := by
  cases phase : k.phase
  case copying => exact absurd phase before
  case done => exact absurd phase going.1
  case failed => exact absurd phase going.2
  all_goals
    simp only [Course.Accounts, phase] at accounts
    exact accounts

theorem accounts_outside (accounts : k.Accounts ls s) (before : k.phase ≠ .copying)
    (follows : k.Step act k') (out : k'.phase ≠ .copying) : k'.Accounts ls t := by
  rcases step_going follows with rfl | going
  · cases phase : k'.phase
    case copying => exact absurd phase out
    all_goals
      simp only [Course.Accounts, phase] at accounts ⊢
      exact accounts
  · obtain ⟨sent, early, seen⟩ := accounts_early accounts before going
    cases phase : k'.phase
    case copying => exact absurd phase out
    case done | failed =>
      simp only [Course.Accounts, phase, sent]
      exact List.nil_prefix
    all_goals
      simp only [Course.Accounts, phase]
      exact ⟨sent, early, seen⟩

/-- What the session does to itself in COPY, whatever the step. -/
theorem copying_step (at' : s.In .copy) (shape : s.conn.Copying I)
    (distinct : s.conn.clientFd ≠ s.conn.originFd) (on : s.conn.passwordDissectors = 0x00)
    (step : Guarded s l t) :
    relayed (s, l) <+: bufferReadPtr s.conn.readBuffer ++ inspected .client (s, l) ∧
      (t.In .copy → relayed (s, l) ++ bufferReadPtr t.conn.readBuffer =
        bufferReadPtr s.conn.readBuffer ++ inspected .client (s, l)) := by
  have still : t.conn.calls = s.conn.calls → t.conn.readBuffer = s.conn.readBuffer →
      inspected .client (s, l) = [] →
      relayed (s, l) <+: bufferReadPtr s.conn.readBuffer ++ inspected .client (s, l) ∧
      (t.In .copy → relayed (s, l) ++ bufferReadPtr t.conn.readBuffer =
        bufferReadPtr s.conn.readBuffer ++ inspected .client (s, l)) := by
    intro calls buffer nothing
    have sent : relayed (s, l) = [] := by
      simp only [relayed, if_pos at', stepped_of step, Option.map_some, Option.getD_some, calls,
        List.drop_length]
      rfl
    rw [sent, nothing, buffer, List.append_nil]
    exact ⟨List.nil_prefix, fun _ => rfl⟩
  cases l with
  | resolved answer fd =>
    obtain rfl := Except.ok.inj step.2
    exact still rfl rfl rfl
  | env w =>
    obtain rfl := Except.ok.inj step.2
    exact still rfl rfl rfl
  | event e fd o =>
    by_cases waits : e = .block
    · subst waits
      obtain ⟨handler, mid, next, picked, -⟩ := socks_event (s := takeJob fd s) at' step.2
      cases picked
    · exact copying_accounts at' shape distinct on step waits

theorem accounts_step (accounts : k.Accounts ls s) (place : k.Place s)
    (on : s.conn.passwordDissectors = 0x00) (step : Guarded s l t) (follows : k.Step act k')
    (place' : k'.Place t) : k'.Accounts (ls ++ [(s, l)]) t := by
  have last : ∀ f : Session × Label → List UInt8,
      (ls ++ [(s, l)]).flatMap f = ls.flatMap f ++ f (s, l) := by
    intro f
    rw [List.flatMap_append, List.flatMap_singleton]
  by_cases here : s.In .copy
  · have phase := (copying_phase place).mpr here
    simp only [Course.Accounts, phase] at accounts
    simp only [Course.Place, phase] at place
    obtain ⟨-, fits, -, I, shape, -⟩ := place
    obtain ⟨sends, holds⟩ := copying_step here shape (fits_distinct fits) on step
    have early : pipelined (s, l) = [] := if_neg fun enters => enters.1 here
    have total : ls.flatMap relayed ++
        (bufferReadPtr s.conn.readBuffer ++ inspected .client (s, l)) =
        ls.flatMap pipelined ++ (ls.flatMap (inspected .client) ++ inspected .client (s, l)) := by
      rw [← List.append_assoc, accounts, List.append_assoc]
    by_cases inside : t.In .copy
    · have phase' := (copying_phase place').mpr inside
      simp only [Course.Accounts, phase', last, early, List.append_nil]
      rw [List.append_assoc, holds inside]
      exact total
    · have phase' : k'.phase = .done := by
        cases follows with
        | idle => exact absurd ((copying_phase place').mp phase) inside
        | close => rfl
        | _ => simp_all
      simp only [Course.Accounts, phase', last, early, List.append_nil]
      rw [← total]
      exact (List.prefix_append_right_inj _).mpr sends
  · obtain ⟨quiet, unseen⟩ := outside_copy (l := l) here
    have before : k.phase ≠ .copying := fun phase => here ((copying_phase place).mp phase)
    by_cases inside : t.In .copy
    · have phase' := (copying_phase place').mpr inside
      have phase := step_copying follows before phase'
      obtain ⟨sent, early, seen⟩ := accounts_early accounts before (by rw [phase]; decide)
      have writing : s.In .requestWrite := by
        simp only [Course.Place, phase] at place
        exact place.1
      have kept := enters_buffer writing inside step
      have enters : pipelined (s, l) = bufferReadPtr s.conn.readBuffer := by
        refine if_pos ⟨here, ?_⟩
        rw [stepped_of step, Option.any_some]
        exact decide_eq_true inside
      simp only [Course.Accounts, phase', last, sent, early, seen, quiet, unseen, enters, kept,
        List.append_nil, List.nil_append]
    · have out : k'.phase ≠ .copying := fun phase => inside ((copying_phase place').mp phase)
      have stays := stays_outside step inside
      have after : k'.Accounts ls t := accounts_outside accounts before follows out
      have same : k'.Accounts (ls ++ [(s, l)]) t ↔ k'.Accounts ls t := by
        simp only [Course.Accounts, last, quiet, unseen, stays, List.append_nil]
      exact same.mpr after

theorem accounts_run (start : JustAccepted true s) (run : Run Guarded s ls t)
    (on : ∀ p ∈ ls, p.1.conn.passwordDissectors = 0x00) :
    ∃ k : Course, k.Place t ∧ k.Accounts ls t := by
  induction run with
  | start => exact ⟨_, accepted_place start, rfl, rfl, rfl⟩
  | @next ls t u l _ step ih =>
    obtain ⟨k, place, accounts⟩ := ih fun p member => on p (List.mem_append_left _ member)
    obtain ⟨act, k', follows, place', -⟩ := step_advances place step
    exact ⟨k', place', accounts_step accounts place (on (t, l) (by simp)) step follows place'⟩

/-- What is relayed to the origin is what the buffer held when COPY was entered, and then
what was inspected. -/
theorem relayed_prefix (start : JustAccepted true s) (run : Run Guarded s ls t)
    (on : ∀ p ∈ ls, p.1.conn.passwordDissectors = 0x00) :
    ls.flatMap relayed <+: ls.flatMap pipelined ++ ls.flatMap (inspected .client) := by
  obtain ⟨k, -, accounts⟩ := accounts_run start run on
  cases phase : k.phase
  case copying =>
    simp only [Course.Accounts, phase] at accounts
    exact ⟨_, accounts⟩
  case done | failed =>
    simp only [Course.Accounts, phase] at accounts
    exact accounts
  all_goals
    simp only [Course.Accounts, phase] at accounts
    rw [accounts.1]
    exact List.nil_prefix

/-- The dissector ran on all that is counted as inspected. -/
theorem dissected_run (start : JustAccepted true s) (run : Run Guarded s ls t) :
    ∀ p ∈ ls, Dissected p := by
  induction run with
  | start => exact fun p member => nomatch member
  | @next ls t u l before step ih =>
    intro p member
    rcases List.mem_append.mp member with earlier | last
    · exact ih p earlier
    obtain rfl := List.mem_singleton.mp last
    by_cases at' : t.In .copy
    · obtain ⟨k, place⟩ := run_place start before
      have phase := (copying_phase place).mpr at'
      simp only [Course.Place, phase] at place
      obtain ⟨-, -, -, I, shape, -⟩ := place
      exact copying_dissected at' shape step
    · exact fun _ _ _ _ _ here => absurd here at'

/-- When no step enters COPY with bytes in the read buffer, whatever is relayed to the
origin was inspected before, in its order: the dissector ran on it. -/
theorem relayed_inspected (start : JustAccepted true s) (run : Run Guarded s ls t)
    (on : ∀ p ∈ ls, p.1.conn.passwordDissectors = 0x00) (clear : ∀ p ∈ ls, pipelined p = []) :
    ls.flatMap relayed <+: ls.flatMap (inspected .client) ∧ ∀ p ∈ ls, Dissected p := by
  have early : ls.flatMap pipelined = [] := List.flatMap_eq_nil_iff.mpr clear
  have sent := relayed_prefix start run on
  rw [early, List.nil_append] at sent
  exact ⟨sent, dissected_run start run⟩

end

/-! ## The first client -/

theorem relayed_inspected_first : ∃ s ls t, JustAccepted true s ∧ Run Guarded s ls t ∧
    ls.flatMap relayed = [1, 2] ∧ ls.flatMap relayed <+: ls.flatMap (inspected .client) ∧
    ∀ p ∈ ls, Dissected p := by
  obtain ⟨s, ls, t, start, run, good⟩ := accepted_history true firstAccept openWorld 7
    (opensRelay [] ++ [received [1, 2], (.write, 6, .fine)])
    (fun ls _ => ls.all (fun p => decide (p.1.conn.passwordDissectors = 0x00)) &&
      ls.all (fun p => decide (pipelined p = [])) && decide (ls.flatMap relayed = [1, 2]))
    rfl (by decide) (openWorld_ready (by decide)) (by decide +kernel)
  simp only [Bool.and_eq_true, List.all_eq_true, decide_eq_true_eq] at good
  obtain ⟨⟨on, clear⟩, sent⟩ := good
  exact ⟨s, ls, t, start, run, sent, relayed_inspected start run on clear⟩

/-- The client sent a byte with its request: the origin gets it, and nothing was inspected. -/
theorem uninspected_byte : ∃ s ls t, JustAccepted true s ∧ Run Guarded s ls t ∧
    (∀ p ∈ ls, p.1.conn.passwordDissectors = 0x00) ∧ (∀ p ∈ ls, Dissected p) ∧
    ls.flatMap relayed = [1] ∧ ls.flatMap (inspected .client) = [] ∧
    ¬ ls.flatMap relayed <+: ls.flatMap (inspected .client) := by
  obtain ⟨s, ls, t, start, run, good⟩ := accepted_history true firstAccept openWorld 7
    (opensRelay [1] ++ [(.write, 6, .fine)])
    (fun ls _ => ls.all (fun p => decide (p.1.conn.passwordDissectors = 0x00)) &&
      decide (ls.flatMap relayed = [1]) && decide (ls.flatMap (inspected .client) = []))
    rfl (by decide) (openWorld_ready (by decide)) (by decide +kernel)
  simp only [Bool.and_eq_true, List.all_eq_true, decide_eq_true_eq] at good
  obtain ⟨⟨on, sent⟩, seen⟩ := good
  refine ⟨s, ls, t, start, run, on, dissected_run start run, sent, seen, ?_⟩
  rw [sent, seen]
  decide

end SocksProxy
