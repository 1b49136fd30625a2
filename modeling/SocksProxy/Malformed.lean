import SocksProxy.Relay
import SocksProxy.RequestStream

/-!
# Malformed requests

The parser of the connection request has four error states, and `request_is_done`
asks only for success. A stream that puts the parser in one of the four is never
answered: REQUEST_READ goes on taking its bytes.
-/

namespace SocksProxy

open Lib

/-! ## Reading a stream in REQUEST_READ -/

/-- A step in REQUEST_READ that takes bytes of the client, or that is no event. -/
def Reads (s : Session) (l : Label) : Prop :=
  s.In .requestRead ∧
    match l with
    | .event e fd o => e = .read ∧ fd = s.conn.clientFd ∧
        (∃ d, s.conn.request = .ok d ∧ d.status = .succeeded) ∧
        ∃ b bytes, recvBytes o (bufferWritePtr s.conn.readBuffer) = some (b :: bytes)
    | _ => True

/-- What the `recv` of a step in REQUEST_READ takes. -/
def bytesRead (p : Session × Label) : List UInt8 :=
  match p.2 with
  | .event .read _ o => (recvBytes o (bufferWritePtr p.1.conn.readBuffer)).getD []
  | _ => []

/-- The session has left for REQUEST_WRITE with a reply queued. -/
def AnswersWith (rep : SocksReplyStatus) (t : Session) : Prop :=
  t.In .requestWrite ∧ replyBytes rep <:+ bufferReadPtr t.conn.writeBuffer

/-- The session is in REQUEST_READ with a parser that will never be done. -/
def Drops (t : Session) : Prop :=
  t.In .requestRead ∧ ∃ d p, t.conn.client = .request d ∧ d.parser = .live p ∧ p.InError

/-- What a client that sent `w` in REQUEST_READ may expect. -/
structure RequestAnswered (w : List UInt8) (t : Session) : Prop where
  command : BadCommand w → AnswersWith .commandNotSupported t
  type : BadType w → AnswersWith .addressTypeNotSupported t
  other : BadVersion w ∨ BadLength w →
    t.In .error ∨ ∃ rep, rep ≠ .succeeded ∧ AnswersWith rep t
  goesOn : ¬ Drops t

/-- A session that has read the stream `w` since it arrived in REQUEST_READ. -/
def HasRead (w : List UInt8) (t : Session) : Prop :=
  t.In .requestRead ∧ (∃ d fed, t.conn.client = .request d ∧ d.parser = .live (requestParse fed) ∧
      (requestParse fed).state ≠ .done ∧ w = fed ++ bufferReadPtr t.conn.readBuffer) ∨
    ¬ t.In .requestRead ∧ ∃ fed rest, (requestParse fed).state = .done ∧ w = fed ++ rest

theorem requestProcess_next (o : Outcome) (fd : Int) (d : RequestSt) (p : RequestParser) (c : Conn) :
    (requestProcess o fd d p c).1 ≠ SocksV5State.requestRead.num := by
  rcases requestProcess_cases o fd d p c with ⟨_, _, -, -, eq⟩ | ⟨-, _, _, _, _, eq⟩ | ⟨-, _, eq⟩ <;>
    simp [eq, errorHandler, SocksV5State.num]

theorem hasRead_event {w : List UInt8} {o : Outcome} {fd : Int} {s t : Session}
    (inv : HasRead w s) (reads : Reads s (.event .read fd o)) (h : handleEvent .read o fd s = .ok t) :
    HasRead (w ++ bytesRead (s, .event .read fd o)) t := by
  obtain ⟨at', -, -, ⟨d, member, fine⟩, b, bytes, got⟩ := reads
  have took : bytesRead (s, .event .read fd o) = b :: bytes := by simp [bytesRead, got]
  rw [took]
  rcases inv with ⟨-, d', fed, member', live, going, rfl⟩ | ⟨left, -⟩
  · obtain ⟨handler, mid, next, picked, ran, stm, last, crossed, ended⟩ := socks_event at' h
    obtain rfl : requestRead o fd = handler := Option.some.inj picked
    obtain ⟨d'', member'', read⟩ := requestRead_ok ran
    obtain rfl : d' = d'' := ClientSt.request.inj (member'.symm.trans member'')
    rw [request_ok, member', ClientSt.request.injEq] at member
    subst member
    rcases read with ⟨failed, -⟩ | ⟨-, none', at'', empty, -⟩ |
        ⟨-, bytes', p, rb, p', -, got', live', consumed, after⟩
    · exact absurd fine failed
    · rw [got] at at''
      subst at''
      rcases empty with e | e <;> cases e
    · obtain rfl : b :: bytes = bytes' := Option.some.inj (got.symm.trans got')
      obtain rfl : requestParse fed = p := Owned.live.inj (live.symm.trans live')
      have fedAll := (drain_ok (Nat.le_of_eq (bufferReadPtr_length _)) consumed).1
      rw [bufferFill_readPtr (recvBytes_le got)] at fedAll
      obtain ⟨more, split, rfl⟩ := parse_fed fedAll
      have stream : fed ++ bufferReadPtr s.conn.readBuffer ++ b :: bytes =
          fed ++ more ++ bufferReadPtr rb := by
        rw [List.append_assoc, split, List.append_assoc]
      rcases after with ⟨done, goes⟩ | ⟨going', stays, same⟩
      · refine Or.inr ⟨fun back => ?_, fed ++ more, bufferReadPtr rb, done, stream⟩
        have there := back.2
        rw [stm] at there
        have next_eq := congrArg Prod.fst goes
        exact requestProcess_next _ _ _ _ _ (next_eq.symm.trans (Option.some.inj there))
      · obtain rfl := SocksV5State.num_inj stays
        obtain rfl : last = mid := by
          rcases crossed with ⟨-, eq⟩ | ⟨ne, -⟩
          · exact eq
          · exact absurd rfl ne
        obtain rfl : t.conn = last := by
          rcases ended with ⟨terminal | terminal, -⟩ | ⟨-, -, eq⟩
          · cases terminal
          · cases terminal
          · exact eq
        refine Or.inl ⟨⟨?_, by rw [stm]⟩, { d' with parser := .live (requestParse (fed ++ more)) },
          fed ++ more, ?_, rfl, going', ?_⟩
        · rw [same]
          exact at'.1
        · rw [same]
          rfl
        · rw [same]
          exact stream
  · exact absurd at' left

theorem hasRead_step {w : List UInt8} {s t : Session} {l : Label} (inv : HasRead w s)
    (reads : Reads s l) (st : Step s l t) : HasRead (w ++ bytesRead (s, l)) t := by
  have frame : ∀ u : Session, u.stm = s.stm → u.conn.isSocks = s.conn.isSocks →
      u.conn.client = s.conn.client → u.conn.readBuffer = s.conn.readBuffer → HasRead w u := by
    intro u stm socks client buffer
    unfold HasRead Session.In at inv ⊢
    rw [stm, socks, client, buffer]
    exact inv
  unfold Step at st
  match l with
  | .event .read fd o => exact hasRead_event inv reads st
  | .event .write fd o => exact nomatch reads.2.1
  | .event .block fd o => exact nomatch reads.2.1
  | .resolved answer fd =>
    simp only [fire, Except.ok.injEq] at st
    subst st
    change HasRead (w ++ []) _
    rw [List.append_nil]
    exact frame _ rfl rfl rfl rfl
  | .env w' =>
    simp only [fire, Except.ok.injEq] at st
    subst st
    change HasRead (w ++ []) _
    rw [List.append_nil]
    exact frame _ rfl rfl rfl rfl

/-- A run that reads a client's stream, in whatever pieces `recv` gives it. -/
theorem hasRead_run {w : List UInt8} {s t : Session} {ls : List (Session × Label)}
    (start : HasRead w s) (run : Run Step s ls t) (reads : ∀ p ∈ ls, Reads p.1 p.2) :
    HasRead (w ++ ls.flatMap bytesRead) t := by
  induction run with
  | start => simpa using start
  | @next ls t u l _ st ih =>
    have before := ih fun p member => reads p (List.mem_append_left _ member)
    have after := hasRead_step before (reads (t, l) (by simp)) st
    simpa [List.append_assoc] using after

theorem hasRead_start {o : Outcome} {fd : Int} {c : Conn} {s : Session}
    (arrival : requestInit o fd c = .ok s.conn) (at' : s.In .requestRead) :
    HasRead (bufferReadPtr s.conn.readBuffer) s := by
  simp only [requestInit] at arrival
  split at arrival
  · rw [Except.ok.injEq] at arrival
    refine Or.inl ⟨at', _, [], by rw [← arrival], rfl, by decide, rfl⟩
  · cases arrival

/-- Whatever pieces a stream comes in, REQUEST_READ does what a client may expect
of it if and only if the stream is not malformed. -/
theorem request_answered_iff {o : Outcome} {fd : Int} {c : Conn} {s t : Session}
    {ls : List (Session × Label)} (arrival : requestInit o fd c = .ok s.conn)
    (at' : s.In .requestRead) (run : Run Step s ls t) (reads : ∀ p ∈ ls, Reads p.1 p.2) :
    RequestAnswered (bufferReadPtr s.conn.readBuffer ++ ls.flatMap bytesRead) t ↔
      ¬ Malformed (bufferReadPtr s.conn.readBuffer ++ ls.flatMap bytesRead) := by
  have read := hasRead_run (hasRead_start arrival at') run reads
  generalize bufferReadPtr s.conn.readBuffer ++ ls.flatMap bytesRead = w at read ⊢
  constructor
  · intro answered malformed
    rcases read with ⟨stays, -⟩ | ⟨-, fed, rest, done, rfl⟩
    · have silent : ∀ state : SocksV5State, t.In state → state = .requestRead := by
        intro state there
        exact SocksV5State.num_inj (Option.some.inj (there.2.symm.trans stays.2))
      rcases malformed with version | command | type | length
      · rcases answered.other (Or.inl version) with there | ⟨_, -, there, -⟩ <;> cases silent _ there
      · cases silent _ (answered.command command).1
      · cases silent _ (answered.type type).1
      · rcases answered.other (Or.inr length) with there | ⟨_, -, there, -⟩ <;> cases silent _ there
    · exact done_not_malformed done rest malformed
  · intro fine
    refine ⟨fun bad => absurd (Or.inr (Or.inl bad)) fine,
      fun bad => absurd (Or.inr (Or.inr (Or.inl bad))) fine, fun bad => absurd ?_ fine, ?_⟩
    · exact bad.elim Or.inl fun length => Or.inr (Or.inr (Or.inr length))
    · rintro ⟨stays, d, p, member, live, error⟩
      rcases read with ⟨-, d', fed, member', live', -, rfl⟩ | ⟨left, -⟩
      · obtain rfl : d' = d := ClientSt.request.inj (member'.symm.trans member)
        obtain rfl : requestParse fed = p := Owned.live.inj (live'.symm.trans live)
        exact fine (malformed_append ((parse_error_iff fed).mp error) _)
      · exact left stays

/-- The first client when REQUEST_READ begins: the record that `request_init` is
given, and the session it leaves. -/
def firstRequest : Option (Conn × Session) :=
  (firstClient [received [0x05, 0x01, 0x00]]).bind fun r =>
    match helloWrite .fine 5 r.conn with
    | .error _ => none
    | .ok (_, c) =>
      match helloWriteClose 5 c with
      | .error _ => none
      | .ok c =>
        match requestInit .fine 5 c with
        | .error _ => none
        | .ok c' => some (c, ⟨{ r.stm with current := some SocksV5State.requestRead.num }, c'⟩)

theorem requestInit_fine {fd : Int} {c c' : Conn} (h : requestInit .fine fd c = .ok c') :
    ∃ d, c'.request = .ok d ∧ d.status = .succeeded := by
  simp only [requestInit, Outcome.fine, if_true, Except.ok.injEq] at h
  exact ⟨_, request_ok.mpr (by rw [← h]), rfl⟩

/-- A BIND request to 127.0.0.1, port 80. -/
def bindRequest : List UInt8 := [0x05, 0x02, 0x00, 0x01, 127, 0, 0, 1, 0, 80]

/-- The first client's stream arrives whole, in one read of a session of REQUEST_READ. -/
theorem firstRequest_reads {w : List UInt8} (nonempty : w ≠ [])
    (plays : firstRequest.any (fun r =>
      decide (r.2.conn.isSocks = true ∧ r.2.conn.clientFd = 5 ∧
        bufferReadPtr r.2.conn.readBuffer = [] ∧
        recvBytes (received w).2.2 (bufferWritePtr r.2.conn.readBuffer) = some w) &&
      (play r.2 [received w]).isSome) = true) :
    ∃ r t ls, firstRequest = some r ∧ requestInit .fine 5 r.1 = .ok r.2.conn ∧
      r.2.In .requestRead ∧ Run Guarded r.2 ls t ∧ (∀ p ∈ ls, Reads p.1 p.2) ∧
      bufferReadPtr r.2.conn.readBuffer ++ ls.flatMap bytesRead = w ∧
      play r.2 [received w] = some t := by
  obtain ⟨r, start, plays⟩ := (Option.any_eq_true _ _).mp plays
  obtain ⟨facts, plays⟩ := (Bool.and_eq_true _ _).mp plays
  obtain ⟨socks, client, unread, got⟩ := of_decide_eq_true facts
  obtain ⟨t, played⟩ := Option.isSome_iff_exists.mp plays
  obtain ⟨arrival, stm⟩ : requestInit .fine 5 r.1 = .ok r.2.conn ∧
      r.2.stm.current = some SocksV5State.requestRead.num := by
    obtain ⟨r', -, start⟩ := Option.bind_eq_some_iff.mp start
    split at start
    · cases start
    · split at start
      · cases start
      · split at start
        · cases start
        · rename_i c' arrival
          simp only [Option.some.injEq] at start
          subst start
          exact ⟨arrival, rfl⟩
  obtain ⟨u, step, rest⟩ := play_cons played
  simp only [play, Option.some.injEq] at rest
  subst rest
  obtain ⟨b, bytes, rfl⟩ := List.exists_cons_of_ne_nil nonempty
  refine ⟨r, u, [(r.2, _)], start, arrival, ⟨socks, stm⟩, .single step, fun p member => ?_, ?_,
    played⟩
  · obtain rfl := List.mem_singleton.mp member
    exact ⟨⟨socks, stm⟩, rfl, client.symm, requestInit_fine arrival, b, bytes, got⟩
  · simp only [unread, List.nil_append, List.flatMap_cons, List.flatMap_nil, List.append_nil]
    exact congrArg (Option.getD · []) got

theorem request_answered_first : ∃ r t, firstRequest = some r ∧
    play r.2 [received connectRequest] = some t ∧
    RequestAnswered connectRequest t := by
  have wellFormed : ¬ Malformed connectRequest := by
    rintro (⟨v, rest, eq, bad⟩ | ⟨c, rest, eq, bad⟩ | ⟨r, a, rest, eq, bad⟩ | ⟨r, n, rest, eq, -⟩)
    · exact bad (List.cons.inj eq).1.symm
    · exact bad (List.cons.inj (List.cons.inj eq).2).1.symm
    · obtain ⟨rfl, -⟩ := List.cons.inj (List.cons.inj (List.cons.inj (List.cons.inj eq).2).2).2
      exact bad List.mem_cons_self
    · cases (List.cons.inj (List.cons.inj (List.cons.inj (List.cons.inj eq).2).2).2).1
  obtain ⟨r, t, ls, start, arrival, at', run, reads, stream, played⟩ :=
    firstRequest_reads (w := connectRequest) (by decide) (by decide +kernel)
  have answered := request_answered_iff arrival at' (guarded_run_step run) reads
  rw [stream] at answered
  exact ⟨r, t, start, played, answered.mpr wellFormed⟩

/-- A whole BIND request is read, and the session waits for more. -/
theorem bind_not_answered : ∃ (c : Conn) (s t : Session) (ls : List (Session × Label)),
    requestInit .fine 5 c = .ok s.conn ∧ s.In .requestRead ∧ Run Guarded s ls t ∧
    (∀ p ∈ ls, Reads p.1 p.2) ∧
    bufferReadPtr s.conn.readBuffer ++ ls.flatMap bytesRead = bindRequest ∧
    ¬ RequestAnswered bindRequest t := by
  obtain ⟨r, t, ls, start, arrival, at', run, reads, stream, played⟩ :=
    firstRequest_reads (w := bindRequest) (by decide) (by decide +kernel)
  have waits : firstRequest.all (fun r => (play r.2 [received bindRequest]).all fun t =>
      decide (t.stm.current ≠ some SocksV5State.requestWrite.num)) = true := by decide +kernel
  simp only [start, Option.all_some, played, decide_eq_true_eq] at waits
  refine ⟨r.1, r.2, t, ls, arrival, at', run, reads, stream, fun answered => ?_⟩
  exact waits (answered.command ⟨0x02, _, rfl, by decide⟩).1.2

end SocksProxy
