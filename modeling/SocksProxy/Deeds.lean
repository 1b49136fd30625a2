import SocksProxy.Conduct
import SocksProxy.Management

/-!
# What each handler and hook touches

Everything but the relay, the start of a resolver thread and the end of a connection
behaves: of what the connection shares it touches only its own.
-/

namespace SocksProxy

open Lib

section
variable {own : Int → Prop} {free : Prop} {o : Outcome} {fd : Int} {c d : Conn} {ret : Nat}

/-! ## The negotiation -/

theorem helloReadInit_behaves (h : helloReadInit o fd c = .ok d) : c.Behaves own fd free d := by
  rcases helloReadInit_ok h with rfl | rfl
  · exact behaves_client _ _
  · exact (behaves_client _ _).trans (behaves_log _ trivial)

theorem helloFed_behaves (x : HelloSt) (bytes : List UInt8) (rb : Buffer) (p : HelloParser)
    (method : UInt8) : c.Behaves own fd free (helloFed fd c x bytes rb p method) :=
  behaves_fields rfl rfl rfl rfl rfl (fun _ member => List.mem_singleton.mp member ▸ trivial) rfl rfl

theorem helloRead_behaves (mine : own fd) (h : helloRead o fd c = .ok (ret, d)) :
    c.Behaves own fd free d := by
  simp only [helloRead] at h
  obtain ⟨x, -, h⟩ := bind_eq_ok.mp h
  split at h
  · obtain ⟨rfl, rfl⟩ := Prod.mk.inj (Except.ok.inj h)
    exact .refl _
  · split at h
    · obtain ⟨rfl, rfl⟩ := Prod.mk.inj (Except.ok.inj h)
      exact behaves_log _ trivial
    · obtain ⟨rfl, rfl⟩ := Prod.mk.inj (Except.ok.inj h)
      exact behaves_log _ trivial
    · rename_i b bytes got
      obtain ⟨p, -, h⟩ := bind_eq_ok.mp h
      obtain ⟨⟨rb, ⟨p', method⟩, error⟩, -, h⟩ := bind_eq_ok.mp h
      have fed : c.Behaves own fd free (helloFed fd c x (b :: bytes) rb p' method) :=
        helloFed_behaves _ _ _ _ _
      have tuned := fed.trans (behaves_setInterest _ opWrite (.inr mine))
      split at h
      · split at h
        · split at h
          · obtain ⟨rfl, rfl⟩ := Prod.mk.inj (Except.ok.inj h)
            exact tuned
          · obtain ⟨rfl, rfl⟩ := Prod.mk.inj (Except.ok.inj h)
            exact tuned.trans (behaves_writeBuffer _ _)
        · obtain ⟨rfl, rfl⟩ := Prod.mk.inj (Except.ok.inj h)
          exact fed
      · obtain ⟨rfl, rfl⟩ := Prod.mk.inj (Except.ok.inj h)
        exact fed

theorem helloReadClose_behaves (h : helloReadClose fd c = .ok d) : c.Behaves own fd free d := by
  obtain ⟨x, -, ⟨-, rfl⟩ | rfl⟩ := helloReadClose_ok h
  · exact .refl _
  · exact behaves_client _ _

theorem helloWriteInit_behaves (h : helloWriteInit fd c = .ok d) : c.Behaves own fd free d := by
  simp only [helloWriteInit] at h
  obtain ⟨x, -, h⟩ := bind_eq_ok.mp h
  obtain rfl := Except.ok.inj h
  exact .refl _

theorem helloWrite_behaves (mine : own fd) (h : helloWrite o fd c = .ok (ret, d)) :
    c.Behaves own fd free d := by
  simp only [helloWrite] at h
  obtain ⟨x, -, h⟩ := bind_eq_ok.mp h
  split at h
  · obtain ⟨rfl, rfl⟩ := Prod.mk.inj (Except.ok.inj h)
    exact behaves_log _ trivial
  · rename_i bytes sent
    have off : c.Behaves own fd free (c.sentOff fd bytes) := behaves_sentOff _ _ _
    split at h
    · obtain ⟨rfl, rfl⟩ := Prod.mk.inj (Except.ok.inj h)
      exact off
    · split at h
      · obtain ⟨rfl, rfl⟩ := Prod.mk.inj (Except.ok.inj h)
        exact off
      · split at h
        · obtain ⟨rfl, rfl⟩ := Prod.mk.inj (Except.ok.inj h)
          exact off.trans (behaves_setInterest _ opRead (.inr mine))
        · obtain ⟨rfl, rfl⟩ := Prod.mk.inj (Except.ok.inj h)
          exact off

/-! ## The username and password -/

theorem authReadInit_behaves (h : authReadInit o fd c = .ok d) : c.Behaves own fd free d := by
  obtain ⟨x, rfl, -⟩ := authReadInit_ok h
  exact behaves_client _ _

theorem authFed_behaves (x : UserpassSt) (bytes : List UInt8) (rb : Buffer) (p : Parser) :
    c.Behaves own fd free (authFed fd c x bytes rb p) :=
  behaves_fields rfl rfl rfl rfl rfl (fun _ member => List.mem_singleton.mp member ▸ trivial) rfl rfl

/-- Looking the credentials up is counted as an attempt. -/
theorem checked_behaves (username password : Option (List UInt8)) (result : UInt8)
    (userIndex : Nat) : c.Behaves own fd free (c.checked username password result userIndex) := by
  refine ⟨[checkCall c.isSocks username password result], [.auth], ?_, ?_⟩
  · have quiet : checkCall c.isSocks username password result ≠ .released ∧
        checkCall c.isSocks username password result ≠ .threadCreated ∧
        checkCall c.isSocks username password result ≠ .counted ∧
        (checkCall c.isSocks username password result).isFound = false ∧
        (checkCall c.isSocks username password result).isConnect = false ∧
        (checkCall c.isSocks username password result).isCheck = true := by
      unfold checkCall
      cases c.isSocks <;> simp [Call.isFound, Call.isConnect, Call.isCheck]
    obtain ⟨kept, alone, uncounted, unfound, unconnected, check⟩ := quiet
    refine acts_record rfl rfl rfl rfl rfl ?_ ?_ rfl ?_ (touches_same rfl rfl rfl)
    · intro member
      exact kept (List.mem_singleton.mp member).symm
    · constructor
      · simp [unfound]
      · simp [uncounted, unfound]
      · simp [unconnected]
      · simp [check]
    · rw [List.count_singleton, if_neg (by simpa using alone), List.replicate_zero, List.append_nil]
      rfl
  · constructor
    · unfold checkCall
      cases c.isSocks <;> simp
    · unfold checkCall
      cases c.isSocks <;> simp
    · unfold checkCall
      cases c.isSocks <;> simp
    · simp
    · rfl

theorem authRead_behaves (mine : own fd) (h : authRead o fd c = .ok (ret, d)) :
    c.Behaves own fd free d := by
  simp only [authRead] at h
  obtain ⟨x, -, h⟩ := bind_eq_ok.mp h
  split at h
  · obtain ⟨rfl, rfl⟩ := Prod.mk.inj (Except.ok.inj h)
    exact .refl _
  · split at h
    · obtain ⟨rfl, rfl⟩ := Prod.mk.inj (Except.ok.inj h)
      exact behaves_log _ trivial
    · obtain ⟨rfl, rfl⟩ := Prod.mk.inj (Except.ok.inj h)
      exact behaves_log _ trivial
    · rename_i b bytes got
      obtain ⟨p, -, h⟩ := bind_eq_ok.mp h
      obtain ⟨⟨rb, p', st, error⟩, -, h⟩ := bind_eq_ok.mp h
      have fed : c.Behaves own fd free (authFed fd c x (b :: bytes) rb p') := authFed_behaves _ _ _ _
      have tuned := fed.trans (behaves_setInterest _ opWrite (.inr mine))
      split at h
      · split at h
        · obtain ⟨⟨r, last⟩, processed, h⟩ := bind_eq_ok.mp h
          obtain ⟨-, username, password, result, userIndex, -, -, rfl⟩ := authProcess_ok processed
          obtain ⟨-, rfl⟩ := Prod.mk.inj (Except.ok.inj h)
          exact tuned.trans (checked_behaves _ _ _ _)
        · obtain ⟨rfl, rfl⟩ := Prod.mk.inj (Except.ok.inj h)
          exact fed
      · obtain ⟨rfl, rfl⟩ := Prod.mk.inj (Except.ok.inj h)
        exact fed

theorem authReadClose_behaves (h : authReadClose fd c = .ok d) : c.Behaves own fd free d := by
  obtain ⟨x, parser, -, rfl⟩ := authReadClose_ok h
  exact behaves_client _ _

theorem authWriteInit_behaves (h : authWriteInit fd c = .ok d) : c.Behaves own fd free d := by
  simp only [authWriteInit] at h
  obtain ⟨x, -, h⟩ := bind_eq_ok.mp h
  obtain rfl := Except.ok.inj h
  exact .refl _

theorem authWrite_behaves (mine : own fd) (h : authWrite o fd c = .ok (ret, d)) :
    c.Behaves own fd free d := by
  simp only [authWrite] at h
  obtain ⟨x, -, h⟩ := bind_eq_ok.mp h
  have reply : c.Behaves own fd free c.replied := behaves_writeBuffer _ _
  split at h
  · obtain ⟨rfl, rfl⟩ := Prod.mk.inj (Except.ok.inj h)
    exact reply.trans (behaves_log _ trivial)
  · rename_i bytes sent
    have off := reply.trans (behaves_sentOff c.replied fd bytes)
    split at h
    · obtain ⟨rfl, rfl⟩ := Prod.mk.inj (Except.ok.inj h)
      exact off
    · split at h
      · obtain ⟨rfl, rfl⟩ := Prod.mk.inj (Except.ok.inj h)
        exact off
      · split at h
        · obtain ⟨rfl, rfl⟩ := Prod.mk.inj (Except.ok.inj h)
          exact off.trans (behaves_setInterest _ opRead (.inr mine))
        · obtain ⟨rfl, rfl⟩ := Prod.mk.inj (Except.ok.inj h)
          exact off

/-! ## The management requests -/

theorem mngReplyStatus_behaves (mine : own fd) (x : MngRequestSt) (status : MngReplyStatus) :
    c.Behaves own fd free (mngReplyStatus x status fd c).2 := by
  have answered : c.Behaves own fd free { c with
      client := .mngRequest { x with status := status }
      writeBuffer := statusMngMarshal c.writeBuffer status } :=
    behaves_quiet rfl rfl rfl rfl rfl rfl rfl
  exact answered.trans (behaves_setInterest _ opWrite (.inr mine))

theorem mngFed_behaves (x : MngRequestSt) (bytes : List UInt8) (rb : Buffer) (p : Parser) :
    c.Behaves own fd free (mngFed fd c x bytes rb p) :=
  behaves_fields rfl rfl rfl rfl rfl (fun _ member => List.mem_singleton.mp member ▸ trivial) rfl rfl

theorem mngRequestIndexRead_behaves (mine : own fd) (h : mngRequestIndexRead o fd c = .ok (ret, d)) :
    c.Behaves own fd free d := by
  simp only [mngRequestIndexRead] at h
  obtain ⟨x, -, h⟩ := bind_eq_ok.mp h
  split at h
  · obtain ⟨rfl, rfl⟩ := Prod.mk.inj (Except.ok.inj h)
    exact mngReplyStatus_behaves mine _ _
  · split at h
    · obtain ⟨rfl, rfl⟩ := Prod.mk.inj (Except.ok.inj h)
      exact mngReplyStatus_behaves mine _ _
    · split at h
      · obtain ⟨rfl, rfl⟩ := Prod.mk.inj (Except.ok.inj h)
        exact behaves_log _ trivial
      · obtain ⟨rfl, rfl⟩ := Prod.mk.inj (Except.ok.inj h)
        exact behaves_log _ trivial
      · rename_i b bytes got
        obtain ⟨p, -, h⟩ := bind_eq_ok.mp h
        obtain ⟨⟨rb, p', state, error⟩, -, h⟩ := bind_eq_ok.mp h
        have fed : c.Behaves own fd free (mngFed fd c x (b :: bytes) rb p') := mngFed_behaves _ _ _ _
        split at h
        · split at h
          · obtain ⟨rfl, rfl⟩ := Prod.mk.inj (Except.ok.inj h)
            exact fed.trans (mngReplyStatus_behaves mine _ _)
          · obtain ⟨result, -, h⟩ := bind_eq_ok.mp h
            obtain ⟨block, -, h⟩ := bind_eq_ok.mp h
            obtain ⟨⟨next, wb⟩, processed, h⟩ := bind_eq_ok.mp h
            have answered : (mngFed fd c x (b :: bytes) rb p').Behaves own fd free
                { mngFed fd c x (b :: bytes) rb p' with
                  client := .mngRequest { x with
                    parser := .live (.ready p'), index := block.getD 0 0 }, writeBuffer := wb } :=
              behaves_quiet rfl rfl rfl rfl rfl rfl rfl
            have all := fed.trans answered
            rcases processMngIndex_next processed with rfl | rfl | rfl
            · obtain ⟨rfl, rfl⟩ := Prod.mk.inj (Except.ok.inj h)
              exact all.trans (behaves_setInterest _ opWrite (.inr mine))
            · obtain ⟨rfl, rfl⟩ := Prod.mk.inj (Except.ok.inj h)
              exact all.trans (behaves_setInterest _ opRead (.inr mine))
            · obtain ⟨rfl, rfl⟩ := Prod.mk.inj (Except.ok.inj h)
              exact all
        · obtain ⟨rfl, rfl⟩ := Prod.mk.inj (Except.ok.inj h)
          exact fed

/-- A change of the options of the server. -/
theorem behaves_settings (isFree : free) (users : UserTable) (heap : Heap) (wb : Buffer)
    {method : UInt8} (dissectors : UInt8)
    (touches : (c.heap = heap ∧ c.users = users) ∨
      ∃ op : TableOp, op.Requested ∧ op.apply (c.heap, c.users) = .ok (heap, users))
    (good : c.authMethod = 0x00 ∨ c.authMethod = 0x02 → method = 0x00 ∨ method = 0x02) :
    c.Behaves own fd free { c with
      users := users
      heap := heap
      writeBuffer := wb
      authMethod := method
      passwordDissectors := dissectors } := by
  have storage : c.Touches free { c with
      users := users
      heap := heap
      writeBuffer := wb
      authMethod := method
      passwordDissectors := dissectors } := by
    rcases touches with ⟨rfl, rfl⟩ | ⟨op, requested, ran⟩
    · exact touches_same rfl rfl rfl
    · exact .single (.request op c.dissecParser isFree requested ran)
  refine ⟨[], [], ?_, plain_nil⟩
  exact ⟨rfl, rfl, rfl, id, (List.append_nil _).symm, rfl, rfl, fun _ _ => rfl,
    fun _ used => .inl ⟨used, rfl⟩, fun _ _ => rfl, fun _ isOpen => .inl ⟨isOpen, id⟩, rfl, rfl, rfl,
    rfl, (List.append_nil _).symm, rfl, marked_silent (List.forall_mem_nil _), good,
    .inl isFree, id, storage⟩

theorem processMngParamsRequest_behaves (isFree : free) {p : Parser} {index : UInt8}
    (h : processMngParamsRequest p index c = .ok d) : c.Behaves own fd free d := by
  simp only [processMngParamsRequest] at h
  split at h
  · split at h
    · obtain rfl := Except.ok.inj h
      exact behaves_writeBuffer _ _
    · rename_i room
      obtain ⟨_, -, h⟩ := bind_eq_ok.mp h
      obtain ⟨_, -, h⟩ := bind_eq_ok.mp h
      obtain ⟨_, added, h⟩ := bind_eq_ok.mp h
      obtain rfl := Except.ok.inj h
      exact behaves_settings isFree _ _ _ c.passwordDissectors
        (.inr (addUser_requested room added)) id
  · obtain ⟨_, -, h⟩ := bind_eq_ok.mp h
    obtain ⟨_, deleted, h⟩ := bind_eq_ok.mp h
    obtain rfl := Except.ok.inj h
    exact behaves_settings isFree _ _ _ c.passwordDissectors (.inr (deleteUser_requested deleted)) id
  · obtain ⟨option, -, h⟩ := bind_eq_ok.mp h
    obtain rfl := Except.ok.inj h
    exact behaves_settings isFree c.users c.heap _ c.passwordDissectors (.inl ⟨rfl, rfl⟩)
      fun _ => disableAuth_method option
  · obtain ⟨option, -, h⟩ := bind_eq_ok.mp h
    obtain rfl := Except.ok.inj h
    exact behaves_settings isFree c.users c.heap _ option (.inl ⟨rfl, rfl⟩) id
  · obtain rfl := Except.ok.inj h
    exact behaves_writeBuffer _ _

theorem mngRequestRead_behaves (mine : own fd) (isFree : free)
    (h : mngRequestRead o fd c = .ok (ret, d)) : c.Behaves own fd free d := by
  simp only [mngRequestRead] at h
  obtain ⟨x, -, h⟩ := bind_eq_ok.mp h
  split at h
  · obtain ⟨rfl, rfl⟩ := Prod.mk.inj (Except.ok.inj h)
    exact mngReplyStatus_behaves mine _ _
  · split at h
    · obtain ⟨rfl, rfl⟩ := Prod.mk.inj (Except.ok.inj h)
      exact behaves_log _ trivial
    · obtain ⟨rfl, rfl⟩ := Prod.mk.inj (Except.ok.inj h)
      exact behaves_log _ trivial
    · rename_i b bytes got
      obtain ⟨p, -, h⟩ := bind_eq_ok.mp h
      obtain ⟨⟨rb, p', state, error⟩, -, h⟩ := bind_eq_ok.mp h
      have fed : c.Behaves own fd free (mngFed fd c x (b :: bytes) rb p') := mngFed_behaves _ _ _ _
      split at h
      · split at h
        · have all := fed.trans (behaves_setInterest _ opWrite (.inr mine))
          split at h
          · obtain ⟨rfl, rfl⟩ := Prod.mk.inj (Except.ok.inj h)
            exact all
          · obtain ⟨e, processed, h⟩ := bind_eq_ok.mp h
            obtain ⟨rfl, rfl⟩ := Prod.mk.inj (Except.ok.inj h)
            exact all.trans (processMngParamsRequest_behaves isFree processed)
        · obtain ⟨rfl, rfl⟩ := Prod.mk.inj (Except.ok.inj h)
          exact fed
      · obtain ⟨rfl, rfl⟩ := Prod.mk.inj (Except.ok.inj h)
        exact fed

theorem mngRequestWrite_behaves (h : mngRequestWrite o fd c = .ok (ret, d)) :
    c.Behaves own fd free d := by
  simp only [mngRequestWrite] at h
  obtain ⟨x, -, h⟩ := bind_eq_ok.mp h
  split at h
  · obtain ⟨rfl, rfl⟩ := Prod.mk.inj (Except.ok.inj h)
    exact behaves_log _ trivial
  · obtain ⟨rfl, rfl⟩ := Prod.mk.inj (Except.ok.inj h)
    exact behaves_sentOff _ _ _

end

end SocksProxy
