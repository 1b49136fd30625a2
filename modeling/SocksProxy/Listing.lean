import SocksProxy.ClientReplies
import SocksProxy.Lib.CString

/-!
# The listing of the users

`list_users_mng_request_marshall` checks the names against the room and writes
the names with their lengths. The lengths are not counted, and a listing that is
refused leaves nothing behind, so the reply is right if and only if all of it
fits: the room has to be `listingSize` bytes.
-/

namespace SocksProxy

open Lib Client

/-- The slots name strings of the heap, which may be longer than the name and its NUL. -/
structure Named (heap : Heap) (t : UserTable) (names : List (List UInt8)) : Prop where
  length : t.nusers = names.length
  strings : ∀ i name, names[i]? = some name → ∃ b rest,
    (t.slots i).name = some b ∧ heap.block b = some (name ++ 0 :: rest) ∧ (0 : UInt8) ∉ name

/-- What a listing takes: the status, the number of users, and a byte and a name for each. -/
def listingSize (names : List (List UInt8)) : Nat :=
  2 + names.length + (names.map List.length).sum

/-- `n` strings, each behind its length, and nothing after them. -/
def takeNames : Nat → List UInt8 → Option (List (List UInt8))
  | 0, [] => some []
  | 0, _ :: _ => none
  | _ + 1, [] => none
  | n + 1, length :: bytes =>
    if length.toNat ≤ bytes.length then
      (takeNames n (bytes.drop length.toNat)).map (bytes.take length.toNat :: ·)
    else none

def decodeListing : List UInt8 → Option (List (List UInt8))
  | 0x00 :: nusers :: bytes => takeNames nusers.toNat bytes
  | _ => none

/-- The marshaller stored a reply behind what was unread, and nowhere else: the listing of
the names or, where that does not fit, a status that reports it. -/
def Listed (wb : Buffer) (names : List (List UInt8)) (r : Result Buffer) : Prop :=
  ∃ wb' reply, r = .ok wb' ∧ wb'.limit = wb.limit ∧
    wb'.data.take wb.write = wb.data.take wb.write ∧
    bufferReadPtr wb' = bufferReadPtr wb ++ reply ∧
    (reply = 0x00 :: UInt8.ofNat names.length ::
          names.flatMap (fun name => UInt8.ofNat name.length :: name) ∧
        decodeListing reply = some names ∨
      bufferWritePtr wb < listingSize names ∧
        ∃ status : MngReplyStatus, status ≠ .succeeded ∧ reply = [status.code])

section
variable {heap : Heap} {t : UserTable} {names : List (List UInt8)} {wb : Buffer}

/-- `strlen` goes through all names of the table. -/
theorem userLengths_named (h : Named heap t names) :
    userLengths heap t t.nusers 0 = .ok names := by
  have from' : ∀ (left : List (List UInt8)) (i : Nat),
      (∀ j name, left[j]? = some name → names[i + j]? = some name) →
        userLengths heap t left.length i = .ok left := by
    intro left
    induction left with
    | nil => exact fun _ _ => rfl
    | cons name left ih =>
      intro i here
      obtain ⟨b, rest, slot, block, plain⟩ := h.strings i name (here 0 name rfl)
      have loaded : heap.load (some b) = .ok (b, name ++ 0 :: rest) := by simp [Heap.load, block]
      have next := ih (i + 1) (fun j other at' => by
        have := here (j + 1) other at'
        rwa [← Nat.add_assoc, Nat.add_right_comm] at this)
      simp only [List.length_cons, userLengths, slot, loaded, ok_bind, cString_plain plain rest,
        next]
  rw [h.length]
  exact from' names 0 fun j name at' => by rwa [Nat.zero_add]

/-- The names come back from their listing. -/
theorem takeNames_listing (short : ∀ name ∈ names, name.length ≤ 255) :
    takeNames names.length (names.flatMap fun name => UInt8.ofNat name.length :: name) =
      some names := by
  induction names with
  | nil => rfl
  | cons name names ih =>
    have fits := short name List.mem_cons_self
    have length : (UInt8.ofNat name.length).toNat = name.length :=
      UInt8.toNat_ofNat_of_lt (by change name.length < 256; omega)
    have rest := ih fun other member => short other (List.mem_cons_of_mem _ member)
    rw [List.flatMap_cons, List.cons_append, List.length_cons, takeNames, length,
      List.drop_left, List.take_left, rest, if_pos (by simp)]
    rfl

theorem decodeListing_listing (few : names.length ≤ maxUsers)
    (short : ∀ name ∈ names, name.length ≤ 255) :
    decodeListing (listUsersBytes names) = some names := by
  have count : (UInt8.ofNat names.length).toNat = names.length := by
    apply UInt8.toNat_ofNat_of_lt
    change names.length < 256
    unfold maxUsers at few
    omega
  change takeNames (UInt8.ofNat names.length).toNat _ = _
  rw [count]
  exact takeNames_listing short

theorem listUsersBytes_length (names : List (List UInt8)) :
    (listUsersBytes names).length = listingSize names := by
  have listing := listing_length names
  have whole : (listUsersBytes names).length = 2 + (names.flatMap Client.listed).length :=
    List.length_append
  unfold listingSize
  omega

/-- The marshaller writes the listing, runs past the end of the buffer, or writes nothing. -/
theorem listUsers_cases (h : Named heap t names) :
    listUsersMngRequestMarshall wb heap t =
      if namesFit ((bufferWritePtr wb + sizeMax - 2) % sizeMax) names then
        if fits : (listUsersBytes names).length ≤ bufferWritePtr wb then
          .ok (bufferPut wb (listUsersBytes names) fits)
        else .error .outOfBounds
      else .ok wb := by
  simp only [listUsersMngRequestMarshall, userLengths_named h, ok_bind]

theorem bufferPut_before {bytes : List UInt8} (fits : bytes.length ≤ bufferWritePtr wb) :
    (bufferPut wb bytes fits).data.take wb.write = wb.data.take wb.write := by
  have bound := wb.write_le
  have size := wb.size
  simp only [bufferPut, bufferWriteAdv, bufferStore, List.append_assoc]
  rw [List.take_append_of_le_length (by rw [List.length_take]; omega), List.take_take, Nat.min_self]

theorem wide_room (sized : wb.limit < sizeMax) (two : 2 ≤ bufferWritePtr wb) :
    (bufferWritePtr wb + sizeMax - 2) % sizeMax = bufferWritePtr wb - 2 := by
  have bounded : bufferWritePtr wb < sizeMax := Nat.lt_of_le_of_lt (Nat.sub_le _ _) sized
  have apart : bufferWritePtr wb + sizeMax - 2 = bufferWritePtr wb - 2 + sizeMax := by omega
  rw [apart, Nat.add_mod_right, Nat.mod_eq_of_lt (by omega)]

/-- The reply to a request for the users is a decodable listing, or a status that says it
does not fit, if and only if the whole listing fits. -/
theorem users_listed_iff {heap : Heap} {t : UserTable} {names : List (List UInt8)} {wb : Buffer}
    (named : Named heap t names) (few : t.nusers ≤ maxUsers)
    (short : ∀ name ∈ names, name.length ≤ 255) (room : 0 < bufferWritePtr wb)
    (sized : wb.limit < sizeMax) :
    Listed wb names (listUsersMngRequestMarshall wb heap t) ↔
      listingSize names ≤ bufferWritePtr wb := by
  have length := listUsersBytes_length names
  rw [listUsers_cases named]
  constructor
  · rintro ⟨wb', reply, ran, -, -, unread, shape⟩
    by_contra small
    have outside : ¬ (listUsersBytes names).length ≤ bufferWritePtr wb := by omega
    have size : 2 ≤ listingSize names := by unfold listingSize; omega
    rw [dif_neg outside] at ran
    split at ran
    · cases ran
    · obtain rfl := Except.ok.inj ran
      have none : reply = [] := List.append_cancel_left (unread.symm.trans (List.append_nil _).symm)
      rcases shape with ⟨listing, -⟩ | ⟨-, status, -, other⟩
      · rw [none] at listing
        cases listing
      · rw [none] at other
        cases other
  · intro fits
    have whole : (listUsersBytes names).length ≤ bufferWritePtr wb := by omega
    have checked : namesFit ((bufferWritePtr wb + sizeMax - 2) % sizeMax) names = true := by
      unfold listingSize at fits
      rw [wide_room sized (by omega)]
      exact namesFit_of_listing (by omega)
    rw [if_pos checked, dif_pos whole]
    refine ⟨_, _, rfl, bufferPut_limit whole, bufferPut_before whole, bufferPut_readPtr whole,
      Or.inl ⟨rfl, ?_⟩⟩
    exact decodeListing_listing (named.length ▸ few) short

/-- The listing of one user takes all four bytes of a buffer. -/
theorem users_listed_one : ∃ heap t names wb, Named heap t names ∧ bufferWritePtr wb = 4 ∧
    names = [[117]] ∧ Listed wb names (listUsersMngRequestMarshall wb heap t) := by
  let heap : Heap := ⟨fun b => if b = 0 then some [117, 0] else none, 1⟩
  let t : UserTable := ⟨fun _ => ⟨some 0, some 0⟩, 1⟩
  let wb : Buffer := bufferInit 4 [0, 0, 0, 0] rfl
  have named : Named heap t [[117]] := by
    refine ⟨rfl, fun i name at' => ⟨0, [], rfl, ?_, ?_⟩⟩
    · cases i with
      | zero => cases at'; rfl
      | succ i => cases at'
    · cases i with
      | zero => cases at'; decide
      | succ i => cases at'
  exact ⟨heap, t, [[117]], wb, named, rfl, rfl,
    (users_listed_iff named (by decide) (by decide) (by decide) (by decide)).mpr (by decide)⟩

/-- Nine names of 227 bytes pass the check for an empty buffer of 2048 bytes, and the listing
takes 2054. -/
theorem users_listing_overflows : ∃ heap t names wb, Named heap t names ∧ t.nusers = 9 ∧
    (∀ name ∈ names, name.length = 227) ∧ wb.limit = rawBuffSize ∧ bufferReadPtr wb = [] ∧
    bufferWritePtr wb = rawBuffSize ∧ listUsersMngRequestMarshall wb heap t = .error .outOfBounds ∧
    ¬ Listed wb names (listUsersMngRequestMarshall wb heap t) := by
  let name : List UInt8 := List.replicate 227 97
  let heap : Heap := ⟨fun b => if b < 18 then some (name ++ [0]) else none, 18⟩
  let t : UserTable := ⟨fun i => ⟨some (2 * i), some (2 * i + 1)⟩, 9⟩
  let wb : Buffer := bufferInit rawBuffSize (List.replicate rawBuffSize 0) List.length_replicate
  have named : Named heap t (List.replicate 9 name) := by
    refine ⟨List.length_replicate.symm, fun i other at' => ?_⟩
    obtain ⟨low, rfl⟩ := List.getElem?_eq_some_iff.mp at'
    rw [List.length_replicate] at low
    rw [List.getElem_replicate]
    exact ⟨2 * i, [], rfl, if_pos (by omega), fun zero => by cases List.eq_of_mem_replicate zero⟩
  have ran : listUsersMngRequestMarshall wb heap t = .error .outOfBounds := by
    have long := listUsersBytes_length (List.replicate 9 name)
    have sum : ((List.replicate 9 name).map List.length).sum = 2043 := by
      rw [List.map_replicate, List.sum_replicate_nat, List.length_replicate]
    have size : listingSize (List.replicate 9 name) = 2054 := by
      rw [listingSize, sum, List.length_replicate]
    have room : bufferWritePtr wb = 2048 := rfl
    have sized : wb.limit < sizeMax := (by decide : 2048 < sizeMax)
    rw [listUsers_cases named, wide_room sized (by omega),
      if_pos (namesFit_of_listing (by omega)), dif_neg (by omega)]
  refine ⟨heap, t, _, wb, named, rfl, ?_, rfl, rfl, rfl, ran, ?_⟩
  · intro other member
    rw [List.eq_of_mem_replicate member]
    exact List.length_replicate
  · rintro ⟨wb', reply, done, -⟩
    rw [ran] at done
    cases done

end

end SocksProxy
