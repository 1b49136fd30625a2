import SocksProxy.Lib.Feed

/-!
# buffer.c

A fixed array with a read and a write index. The order of the two indices
and the size of the array are fields, so the assertions of the source become
the bounds that `bufferWriteAdv` and `bufferReadAdv` ask of their caller.
-/

namespace SocksProxy

open Lib

structure Buffer where
  data : List UInt8
  limit : Nat
  read : Nat
  write : Nat
  size : data.length = limit
  read_le : read ≤ write
  write_le : write ≤ limit
  deriving DecidableEq, Repr

def bufferReset (b : Buffer) : Buffer :=
  { b with read := 0, write := 0, read_le := Nat.le_refl 0, write_le := Nat.zero_le _ }

def bufferInit (n : Nat) (data : List UInt8) (size : data.length = n) : Buffer where
  data := data
  limit := n
  read := 0
  write := 0
  size := size
  read_le := Nat.le_refl 0
  write_le := Nat.zero_le n

def bufferCanWrite (b : Buffer) : Bool := decide (b.limit - b.write > 0)

/-- The room `buffer_write_ptr` reports. -/
def bufferWritePtr (b : Buffer) : Nat := b.limit - b.write

def bufferCanRead (b : Buffer) : Bool := decide (b.write - b.read > 0)

/-- The bytes between the two indices: what `buffer_read_ptr` points at. -/
def bufferReadPtr (b : Buffer) : List UInt8 := (b.data.drop b.read).take (b.write - b.read)

theorem write_ptr_le {b : Buffer} {n : Nat} (h : n ≤ bufferWritePtr b) : b.write + n ≤ b.limit := by
  have := b.write_le
  unfold bufferWritePtr at h
  omega

/-- What `recv` or a marshaller leaves at the pointer `buffer_write_ptr` returned. -/
def bufferStore (b : Buffer) (bytes : List UInt8) (h : bytes.length ≤ bufferWritePtr b) : Buffer :=
  { b with
    data := b.data.take b.write ++ bytes ++ b.data.drop (b.write + bytes.length)
    size := by
      have := write_ptr_le h
      have := b.size
      simp only [List.length_append, List.length_take, List.length_drop]
      omega }

def bufferWriteAdv (b : Buffer) (bytes : Int) (h : bytes ≤ bufferWritePtr b) : Buffer :=
  { b with
    write := b.write + bytes.toNat
    read_le := Nat.le_trans b.read_le (Nat.le_add_right _ _)
    write_le := write_ptr_le (by omega) }

def bufferCompact (b : Buffer) : Buffer :=
  if b.read = 0 then b
  else if b.read = b.write then bufferReset b
  else
    { b with
      -- memmove keeps what lies past the moved bytes
      data := bufferReadPtr b ++ b.data.drop (b.write - b.read)
      read := 0
      write := b.write - b.read
      size := by
        have := b.size
        have := b.write_le
        simp only [bufferReadPtr, List.length_append, List.length_take, List.length_drop]
        omega
      read_le := Nat.zero_le _
      write_le := Nat.le_trans (Nat.sub_le _ _) b.write_le }

def bufferReadAdv (b : Buffer) (bytes : Int) (h : bytes ≤ (b.write - b.read : Nat)) : Buffer :=
  if -1 < bytes then
    let b' : Buffer :=
      { b with
        read := b.read + bytes.toNat
        read_le := by have := b.read_le; omega }
    if b'.read = b'.write then bufferCompact b' else b'
  else b

def bufferRead (b : Buffer) : UInt8 × Buffer :=
  if h : bufferCanRead b then
    (b.data.getD b.read 0, bufferReadAdv b 1 (by simp [bufferCanRead] at h; omega))
  else (0, b)

def bufferWrite (b : Buffer) (c : UInt8) : Buffer :=
  if h : bufferCanWrite b then
    bufferWriteAdv (bufferStore b [c] (by simp [bufferCanWrite] at h; simp [bufferWritePtr]; omega)) 1
      (by simp [bufferCanWrite] at h; simp [bufferWritePtr, bufferStore]; omega)
  else b

/-! ## The two ways the server moves whole pieces -/

/-- Bytes are stored at the write pointer and the pointer moves past them. -/
def bufferPut (b : Buffer) (bytes : List UInt8) (h : bytes.length ≤ bufferWritePtr b) : Buffer :=
  bufferWriteAdv (bufferStore b bytes h) bytes.length (Int.ofNat_le.mpr h)

/-- The read pointer moves past at most the unread bytes. -/
def bufferTake (b : Buffer) (n : Nat) : Buffer :=
  bufferReadAdv b (min n (b.write - b.read) : Nat) (Int.ofNat_le.mpr (Nat.min_le_right _ _))

/-- An empty buffer has both indices at the start of its array. -/
def Buffer.Rewound (b : Buffer) : Prop := b.read = b.write → b.read = 0

theorem bufferReadPtr_length (b : Buffer) : (bufferReadPtr b).length = b.write - b.read := by
  have := b.size
  have := b.write_le
  simp only [bufferReadPtr, List.length_take, List.length_drop]
  omega

theorem bufferCanRead_iff {b : Buffer} : bufferCanRead b = true ↔ bufferReadPtr b ≠ [] := by
  rw [← List.length_pos_iff, bufferReadPtr_length]
  simp [bufferCanRead]

theorem bufferCanRead_eq_false {b : Buffer} : bufferCanRead b = false ↔ bufferReadPtr b = [] := by
  rw [← Bool.not_eq_true, bufferCanRead_iff, ne_eq, Decidable.not_not]

@[simp] theorem bufferReset_readPtr (b : Buffer) : bufferReadPtr (bufferReset b) = [] := by
  simp [bufferReadPtr, bufferReset]

@[simp] theorem bufferReset_limit (b : Buffer) : (bufferReset b).limit = b.limit := rfl

@[simp] theorem bufferCompact_limit (b : Buffer) : (bufferCompact b).limit = b.limit := by
  unfold bufferCompact
  split
  · rfl
  · split <;> rfl

/-- Compaction moves the unread bytes and keeps them in order. -/
@[simp] theorem bufferCompact_readPtr (b : Buffer) :
    bufferReadPtr (bufferCompact b) = bufferReadPtr b := by
  unfold bufferCompact
  split
  · rfl
  · split
    · rename_i he
      simp [bufferReadPtr, bufferReset, he]
    · have := bufferReadPtr_length b
      simp only [bufferReadPtr] at this ⊢
      simp [this]

theorem bufferCompact_rewound (b : Buffer) : (bufferCompact b).Rewound := by
  unfold bufferCompact
  split
  · rename_i h
    exact fun _ => h
  · split <;> exact fun _ => rfl

section
variable {b : Buffer} {bytes : List UInt8}

theorem put_readPtr (fits : bytes.length ≤ bufferWritePtr b) {n : Int} (room : n ≤ bufferWritePtr b) :
    bufferReadPtr (bufferWriteAdv (bufferStore b bytes fits) n room) =
      bufferReadPtr b ++ (bytes ++ b.data.drop (b.write + bytes.length)).take n.toNat := by
  have size := b.size
  have order := b.read_le
  have most := write_ptr_le fits
  have front : (b.data.take b.write).length = b.write := by
    rw [List.length_take]
    omega
  simp only [bufferReadPtr, bufferWriteAdv, bufferStore]
  rw [List.append_assoc, List.drop_append_of_le_length (by omega), List.drop_take,
    List.take_append, List.take_of_length_le (by simp; omega)]
  have rest : b.write + n.toNat - b.read -
      (List.take (b.write - b.read) (List.drop b.read b.data)).length = n.toNat := by
    simp
    omega
  rw [rest]

theorem readAdv_readPtr {n : Int} (most : n ≤ (b.write - b.read : Nat)) :
    bufferReadPtr (bufferReadAdv b n most) = (bufferReadPtr b).drop n.toNat := by
  unfold bufferReadAdv
  split
  · rename_i moves
    have moved : ((b.data.drop (b.read + n.toNat)).take (b.write - (b.read + n.toNat))) =
        (bufferReadPtr b).drop n.toNat := by
      simp only [bufferReadPtr, List.drop_take, List.drop_drop]
      congr 1
      omega
    simp only
    split
    · rw [bufferCompact_readPtr]
      exact moved
    · exact moved
  · rename_i negative
    have none : n.toNat = 0 := by omega
    rw [none, List.drop_zero]

theorem readAdv_rewound {n : Int} (most : n ≤ (b.write - b.read : Nat)) (rewound : n ≤ -1 → b.Rewound) :
    (bufferReadAdv b n most).Rewound := by
  unfold bufferReadAdv
  split
  · simp only
    split
    · exact bufferCompact_rewound _
    · rename_i apart
      exact fun same => absurd same apart
  · rename_i negative
    exact rewound (by omega)

theorem readAdv_limit {n : Int} (most : n ≤ (b.write - b.read : Nat)) :
    (bufferReadAdv b n most).limit = b.limit := by
  unfold bufferReadAdv
  split
  · simp only
    split
    · rw [bufferCompact_limit]
    · rfl
  · rfl

theorem put_rewound (fits : bytes.length ≤ bufferWritePtr b) {n : Int}
    (room : n ≤ bufferWritePtr b) (rewound : b.Rewound) :
    (bufferWriteAdv (bufferStore b bytes fits) n room).Rewound := by
  intro same
  have order := b.read_le
  -- the write index only grows, so the two were equal before
  have before : b.read = b.write := by
    have : b.read = b.write + n.toNat := same
    omega
  exact rewound before

end

@[simp] theorem bufferPut_limit {b : Buffer} {bytes : List UInt8}
    (h : bytes.length ≤ bufferWritePtr b) : (bufferPut b bytes h).limit = b.limit := rfl

@[simp] theorem bufferPut_read {b : Buffer} {bytes : List UInt8}
    (h : bytes.length ≤ bufferWritePtr b) : (bufferPut b bytes h).read = b.read := rfl

@[simp] theorem bufferPut_write {b : Buffer} {bytes : List UInt8}
    (h : bytes.length ≤ bufferWritePtr b) :
    (bufferPut b bytes h).write = b.write + bytes.length := by
  simp [bufferPut, bufferWriteAdv, bufferStore]

@[simp] theorem bufferPut_readPtr {b : Buffer} {bytes : List UInt8}
    (h : bytes.length ≤ bufferWritePtr b) :
    bufferReadPtr (bufferPut b bytes h) = bufferReadPtr b ++ bytes := by
  have stored := put_readPtr h (Int.ofNat_le.mpr h)
  rw [Int.toNat_natCast, List.take_left] at stored
  exact stored

theorem bufferPut_rewound {b : Buffer} {bytes : List UInt8}
    (h : bytes.length ≤ bufferWritePtr b) (hb : b.Rewound) : (bufferPut b bytes h).Rewound :=
  put_rewound h (Int.ofNat_le.mpr h) hb

@[simp] theorem bufferTake_limit (b : Buffer) (n : Nat) : (bufferTake b n).limit = b.limit :=
  readAdv_limit _

@[simp] theorem bufferTake_readPtr (b : Buffer) (n : Nat) :
    bufferReadPtr (bufferTake b n) = (bufferReadPtr b).drop n := by
  have length := bufferReadPtr_length b
  unfold bufferTake
  rw [readAdv_readPtr, Int.toNat_natCast]
  rcases Nat.le_total n (b.write - b.read) with few | many
  · rw [Nat.min_eq_left few]
  · rw [Nat.min_eq_right many, List.drop_eq_nil_of_le (by omega), List.drop_eq_nil_of_le (by omega)]

theorem bufferTake_rewound (b : Buffer) (n : Nat) : (bufferTake b n).Rewound :=
  readAdv_rewound _ fun negative => by omega

/-- An empty rewound buffer offers its whole array. -/
theorem Buffer.Rewound.room {b : Buffer} (hb : b.Rewound) (he : bufferReadPtr b = []) :
    b.read = 0 ∧ b.write = 0 ∧ bufferWritePtr b = b.limit := by
  have hl := bufferReadPtr_length b
  have := b.read_le
  rw [he] at hl
  simp only [List.length_nil] at hl
  have hr : b.read = 0 := hb (by omega)
  exact ⟨hr, by omega, by unfold bufferWritePtr; omega⟩

/-! ## Feeding a parser from a buffer -/

section
variable {σ : Type}

/-- `while (buffer_can_read(b) && !finished)`: the loop that the hello parser,
the request parser and the generic parser share. It takes at most one turn
for each unread byte. -/
def drain (feed : σ → UInt8 → Result σ) (isDone : σ → Bool) :
    Nat → Buffer → σ → Result (Buffer × σ)
  | 0, b, p => .ok (b, p)
  | n + 1, b, p =>
    if bufferCanRead b then
      let (byte, b) := bufferRead b
      feed p byte >>= fun p =>
        if isDone p then .ok (b, p) else drain feed isDone n b p
    else .ok (b, p)

theorem bufferRead_eq {b : Buffer} (h : bufferCanRead b = true) :
    bufferReadPtr b = (bufferRead b).1 :: (bufferReadPtr b).tail ∧
      (bufferRead b).2 = bufferTake b 1 := by
  have hs := b.size
  have hw := b.write_le
  have hr : 0 < b.write - b.read := by simpa [bufferCanRead] using h
  have hlt : b.read < b.data.length := by omega
  constructor
  · obtain ⟨k, hk⟩ : ∃ k, b.write - b.read = k + 1 := ⟨b.write - b.read - 1, by omega⟩
    have hcons : (b.data.drop b.read).take (k + 1) =
        b.data[b.read] :: (b.data.drop (b.read + 1)).take k := by
      rw [List.drop_eq_getElem_cons hlt, List.take_succ_cons]
    simp [bufferRead, h, bufferReadPtr, hk, hcons, hlt]
  · have : min 1 (b.write - b.read) = 1 := by omega
    simp [bufferRead, h, bufferTake, this]

/-- The loop over the buffer is the loop over its unread bytes. -/
theorem drain_ok {feed : σ → UInt8 → Result σ} {isDone : σ → Bool} {n : Nat} {b b' : Buffer}
    {p p' : σ} (hn : (bufferReadPtr b).length ≤ n)
    (h : drain feed isDone n b p = .ok (b', p')) :
    feedUntil feed isDone p (bufferReadPtr b) = .ok (p', bufferReadPtr b') ∧
      b'.limit = b.limit ∧ (b.Rewound → b'.Rewound) := by
  induction n generalizing b p with
  | zero =>
    have he : bufferReadPtr b = [] := List.length_eq_zero_iff.mp (by omega)
    simp only [drain, Except.ok.injEq, Prod.mk.injEq] at h
    obtain ⟨rfl, rfl⟩ := h
    exact ⟨by simp [he, feedUntil], rfl, id⟩
  | succ n ih =>
    simp only [drain] at h
    split at h
    · rename_i hc
      obtain ⟨hcons, htake⟩ := bufferRead_eq hc
      have hlen := congrArg List.length hcons
      simp only [List.length_cons, List.length_tail] at hlen
      have htail : bufferReadPtr (bufferTake b 1) = (bufferReadPtr b).tail := by simp
      rw [htake] at h
      obtain ⟨q, hq, h⟩ := bind_eq_ok.mp h
      rw [hcons, feedUntil, hq, ok_bind]
      split at h
      · rename_i hd
        simp only [Except.ok.injEq, Prod.mk.injEq] at h
        obtain ⟨rfl, rfl⟩ := h
        simp [hd, bufferTake_rewound]
      · rename_i hd
        obtain ⟨hf, hl, hr⟩ := ih (b := bufferTake b 1)
          (by rw [htail, List.length_tail]; omega) h
        rw [htail] at hf
        exact ⟨by simp [hd, hf], by simpa using hl, fun _ => hr (bufferTake_rewound b 1)⟩
    · rename_i hc
      have he : bufferReadPtr b = [] := bufferCanRead_eq_false.mp (by simpa using hc)
      simp only [Except.ok.injEq, Prod.mk.injEq] at h
      obtain ⟨rfl, rfl⟩ := h
      exact ⟨by simp [he, feedUntil], rfl, id⟩

/-- The loop over the buffer ends when the loop over its unread bytes does. -/
theorem drain_of_feedUntil {feed : σ → UInt8 → Result σ} {isDone : σ → Bool} {n : Nat}
    {b : Buffer} {p p' : σ} {rest : List UInt8} (hn : (bufferReadPtr b).length ≤ n)
    (h : feedUntil feed isDone p (bufferReadPtr b) = .ok (p', rest)) :
    ∃ b', drain feed isDone n b p = .ok (b', p') := by
  induction n generalizing b p with
  | zero =>
    have he : bufferReadPtr b = [] := List.length_eq_zero_iff.mp (by omega)
    rw [he] at h
    simp only [feedUntil, Except.ok.injEq, Prod.mk.injEq] at h
    exact ⟨b, by simp [drain, h.1]⟩
  | succ n ih =>
    simp only [drain]
    split
    · rename_i hc
      obtain ⟨hcons, htake⟩ := bufferRead_eq hc
      have hlen := congrArg List.length hcons
      simp only [List.length_cons, List.length_tail] at hlen
      have htail : bufferReadPtr (bufferTake b 1) = (bufferReadPtr b).tail := by simp
      rw [hcons, feedUntil] at h
      obtain ⟨q, hq, h⟩ := bind_eq_ok.mp h
      rw [htake, hq, ok_bind]
      split at h
      · rename_i hd
        simp only [Except.ok.injEq, Prod.mk.injEq] at h
        exact ⟨bufferTake b 1, by rw [if_pos hd, h.1]⟩
      · rename_i hd
        obtain ⟨b', hb'⟩ := ih (b := bufferTake b 1)
          (by rw [htail, List.length_tail]; omega) (by rw [htail]; exact h)
        exact ⟨b', by simp [hd, hb']⟩
    · rename_i hc
      have he : bufferReadPtr b = [] := bufferCanRead_eq_false.mp (by simpa using hc)
      rw [he] at h
      simp only [feedUntil, Except.ok.injEq, Prod.mk.injEq] at h
      exact ⟨b, by rw [h.1]⟩

end

end SocksProxy
