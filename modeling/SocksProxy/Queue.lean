import SocksProxy.Buffer
import SocksProxy.Lib.Fifo

/-!
# The buffer is a bounded queue

Its items are the unread bytes. A caller stores bytes where `buffer_write_ptr` says
and advances by what it likes, within the room; bytes that it did not store are
those that the array held there.
-/

namespace SocksProxy

open Lib

inductive BufferOp
  /-- Bytes are stored at the write pointer, then `buffer_write_adv`. -/
  | put (bytes : List UInt8) (n : Int)
  | readAdv (n : Int)
  | read
  | write (c : UInt8)
  | compact
  | reset

/-- No more than the room is written, and no more than the unread bytes are read. -/
def BufferOp.Allowed (b : Buffer) : BufferOp → Prop
  | .put bytes n => bytes.length ≤ bufferWritePtr b ∧ n ≤ bufferWritePtr b
  | .readAdv n => n ≤ (b.write - b.read : Nat)
  | .read | .write _ | .compact | .reset => True

def BufferOp.apply (b : Buffer) : (op : BufferOp) → op.Allowed b → Buffer
  | .put bytes n, h => bufferWriteAdv (bufferStore b bytes h.1) n h.2
  | .readAdv n, h => bufferReadAdv b n h
  | .read, _ => (bufferRead b).2
  | .write c, _ => bufferWrite b c
  | .compact, _ => bufferCompact b
  | .reset, _ => bufferReset b

def BufferOp.Step (b : Buffer) (op : BufferOp) (b' : Buffer) : Prop :=
  ∃ allowed : op.Allowed b, op.apply b allowed = b'

def Buffer.fifo (b : Buffer) : Fifo UInt8 where
  capacity := b.limit
  items := bufferReadPtr b
  bound := by
    rw [bufferReadPtr_length]
    exact Nat.le_trans (Nat.sub_le _ _) b.write_le

/-- What an operation writes to the queue and what it reads from it, or throws away. -/
def BufferOp.move (b : Buffer) : BufferOp → Fifo.Move UInt8
  | .put bytes n => ⟨(bytes ++ b.data.drop (b.write + bytes.length)).take n.toNat, []⟩
  | .readAdv n => ⟨[], (bufferReadPtr b).take n.toNat⟩
  | .read => ⟨[], if bufferCanRead b then [(bufferRead b).1] else []⟩
  | .write c => ⟨if bufferCanWrite b then [c] else [], []⟩
  | .compact => ⟨[], []⟩
  | .reset => ⟨[], bufferReadPtr b⟩

section
variable {b b' : Buffer} {op : BufferOp} {bytes : List UInt8} {n : Nat} {c : UInt8}

/-- A read from an empty buffer changes nothing. -/
theorem read_empty (empty : bufferReadPtr b = []) : bufferRead b = (0, b) := by
  have none := bufferCanRead_eq_false.mpr empty
  simp [bufferRead, none]

/-- A write without room changes nothing. -/
theorem write_full (full : bufferWritePtr b = 0) (c : UInt8) : bufferWrite b c = b := by
  have none : bufferCanWrite b = false :=
    decide_eq_false (Nat.not_lt.mpr (Nat.le_of_eq full))
  simp [bufferWrite, none]

theorem compact_room (b : Buffer) :
    bufferWritePtr (bufferCompact b) = b.limit - (bufferReadPtr b).length := by
  rw [bufferReadPtr_length]
  unfold bufferCompact
  split
  · rename_i start
    simp [bufferWritePtr, start]
  · split
    · rename_i same
      simp [bufferWritePtr, bufferReset, same]
    · rfl

/-- Each operation moves the queue by what it writes and what it reads. -/
theorem buffer_op_step (step : BufferOp.Step b op b') : Fifo.Step b.fifo (op.move b) b'.fifo := by
  obtain ⟨allowed, rfl⟩ := step
  cases op with
  | put bytes n => exact ⟨rfl, (put_readPtr allowed.1 allowed.2).symm⟩
  | readAdv n =>
    refine ⟨readAdv_limit allowed, ?_⟩
    have left : bufferReadPtr (bufferReadAdv b n allowed) = _ := readAdv_readPtr allowed
    simp only [Buffer.fifo, BufferOp.move, BufferOp.apply, left, List.append_nil,
      List.take_append_drop]
  | read =>
    cases can : bufferCanRead b with
    | false =>
      have empty := read_empty (bufferCanRead_eq_false.mp can)
      simp [Fifo.Step, Buffer.fifo, BufferOp.move, BufferOp.apply, empty, can]
    | true =>
      obtain ⟨first, rest⟩ := bufferRead_eq can
      have tail : bufferReadPtr (bufferTake b 1) = (bufferReadPtr b).tail := by simp
      refine ⟨?_, ?_⟩
      · simp [Buffer.fifo, BufferOp.apply, rest]
      · simp only [Buffer.fifo, BufferOp.move, BufferOp.apply, rest, tail, can, if_true,
          List.append_nil]
        exact first
  | write c =>
    cases can : bufferCanWrite b with
    | false => simp [Fifo.Step, Buffer.fifo, BufferOp.move, BufferOp.apply, bufferWrite, can]
    | true =>
      refine ⟨by simp [Buffer.fifo, BufferOp.apply, bufferWrite, can, bufferWriteAdv, bufferStore],
        ?_⟩
      have stored : bufferReadPtr (bufferWrite b c) = bufferReadPtr b ++ [c] := by
        simp only [bufferWrite, can, dite_true]
        exact (put_readPtr _ _).trans (by simp)
      simp [Buffer.fifo, BufferOp.move, BufferOp.apply, stored, can]
  | compact =>
    refine ⟨bufferCompact_limit b, ?_⟩
    have same : bufferReadPtr (bufferCompact b) = _ := bufferCompact_readPtr b
    simp [Buffer.fifo, BufferOp.move, BufferOp.apply, same]
  | reset => exact ⟨rfl, by simp [Buffer.fifo, BufferOp.move, BufferOp.apply]⟩

theorem buffer_op_rewound (step : BufferOp.Step b op b') (rewound : b.Rewound) : b'.Rewound := by
  obtain ⟨allowed, rfl⟩ := step
  cases op with
  | put bytes n => exact put_rewound allowed.1 allowed.2 rewound
  | readAdv n => exact readAdv_rewound allowed fun _ => rewound
  | read =>
    show (bufferRead b).2.Rewound
    unfold bufferRead
    split
    · exact readAdv_rewound _ fun _ => rewound
    · exact rewound
  | write c =>
    show (bufferWrite b c).Rewound
    unfold bufferWrite
    split
    · exact put_rewound _ _ rewound
    · exact rewound
  | compact => exact bufferCompact_rewound b
  | reset => exact fun _ => rfl

variable {size : Nat} {data : List UInt8} {ls : List (Buffer × BufferOp)}

/-- The moves that the operations of a run make. -/
def bufferMoves (ls : List (Buffer × BufferOp)) : List (Fifo UInt8 × Fifo.Move UInt8) :=
  ls.map fun p => (p.1.fifo, p.2.move p.1)

theorem buffer_run_fifo (run : Run BufferOp.Step b ls b') :
    Run Fifo.Step b.fifo (bufferMoves ls) b'.fifo := by
  induction run with
  | start => exact .start
  | next _ step ih =>
    rw [bufferMoves, List.map_append]
    exact .next ih (buffer_op_step step)

/-- After any operations the indices are in order and within the array, the bytes
written are those read and then the unread ones, and an empty buffer is rewound. -/
theorem buffer_is_bounded_queue (full : data.length = size)
    (run : Run BufferOp.Step (bufferInit size data full) ls b) :
    (b.read ≤ b.write ∧ b.write ≤ b.limit ∧ b.limit = size) ∧
    Fifo.total Fifo.Move.taken (bufferMoves ls) =
      Fifo.total Fifo.Move.given (bufferMoves ls) ++ bufferReadPtr b ∧
    (∀ c, bufferWritePtr b = 0 → bufferWrite b c = b) ∧
    (bufferReadPtr b = [] → bufferRead b = (0, b)) ∧
    (bufferReadPtr (bufferCompact b) = bufferReadPtr b ∧
      bufferWritePtr (bufferCompact b) = size - (bufferReadPtr b).length) ∧
    (b.read = b.write → b.read = 0 ∧ b.write = 0 ∧ bufferWritePtr b = size) := by
  obtain ⟨capacity, moved⟩ := Fifo.run_conserves (buffer_run_fifo run)
  have limit : b.limit = size := capacity
  have rewound : b.Rewound :=
    run.always (fun _ _ _ before step => buffer_op_rewound step before) fun _ => rfl
  refine ⟨⟨b.read_le, b.write_le, limit⟩, ?_, fun c none => write_full none c, read_empty,
    ⟨bufferCompact_readPtr b, limit ▸ compact_room b⟩, fun same => ?_⟩
  · have start : (bufferInit size data full).fifo.items = [] := by
      simp [Buffer.fifo, bufferInit, bufferReadPtr]
    rw [start, List.nil_append] at moved
    exact moved
  · have empty : bufferReadPtr b = [] := by
      apply List.eq_nil_of_length_eq_zero
      rw [bufferReadPtr_length, same, Nat.sub_self]
    exact limit ▸ rewound.room empty

/-- Three bytes of room: two bytes come in, one goes out, one more comes in. -/
theorem buffer_is_bounded_queue_three : ∃ ls b,
    Run BufferOp.Step (bufferInit 3 [0, 0, 0] rfl) ls b ∧ bufferReadPtr b = [8, 9] ∧
    Fifo.total Fifo.Move.taken (bufferMoves ls) =
      Fifo.total Fifo.Move.given (bufferMoves ls) ++ bufferReadPtr b := by
  have put : BufferOp.Step (bufferInit 3 [0, 0, 0] rfl) (.put [7, 8] 2) _ :=
    ⟨⟨by decide, by decide⟩, rfl⟩
  have read (b : Buffer) : BufferOp.Step b .read (bufferRead b).2 := ⟨trivial, rfl⟩
  have write (b : Buffer) : BufferOp.Step b (.write 9) (bufferWrite b 9) := ⟨trivial, rfl⟩
  have run := ((Run.single put).next (read _)).next (write _)
  exact ⟨_, _, run, by decide, (buffer_is_bounded_queue rfl run).2.1⟩

end

end SocksProxy
