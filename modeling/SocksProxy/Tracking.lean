import SocksProxy.Copy
import SocksProxy.Course
import SocksProxy.Negotiation
import SocksProxy.RequestStream

/-!
# Sessions on their course

`k.Place s` says that the session `s` is where the course `k` is: its state, what
the selector watches, its references, its replies and the calls it has made.
-/

namespace SocksProxy

open Lib

/-! ## Replies in the write buffer -/

/-- As many replies as find room in a buffer of which nothing is sent. -/
def repliesRoom : Nat := 204

def repliesOf (said : List SocksReplyStatus) : List UInt8 :=
  (said.take repliesRoom).flatMap replyBytes

/-- Nothing of the buffer was sent yet; it holds these replies. -/
structure Buffer.Queues (b : Buffer) (said : List SocksReplyStatus) : Prop where
  unread : bufferReadPtr b = repliesOf said
  start : b.read = 0
  limit : b.limit = rawBuffSize

theorem replies_length (said : List SocksReplyStatus) :
    (said.flatMap replyBytes).length = 10 * said.length := by
  induction said with
  | nil => rfl
  | cons status said ih =>
    rw [List.flatMap_cons, List.length_append, ih, List.length_cons]
    change 10 + 10 * said.length = _
    omega

/-- A reply that finds no room is dropped, and so are all that follow it. -/
theorem queues_marshalled {b : Buffer} {said : List SocksReplyStatus} (h : b.Queues said)
    (status : SocksReplyStatus) :
    ((requestMarshall status b).getD b).Queues (said ++ [status]) := by
  have length := bufferReadPtr_length b
  rw [h.unread, repliesOf, replies_length, h.start, List.length_take] at length
  have room : bufferWritePtr b = rawBuffSize - b.write := by rw [bufferWritePtr, h.limit]
  unfold requestMarshall repliesRoom rawBuffSize at *
  by_cases fits : said.length < 204
  · rw [dif_pos (by omega)]
    refine ⟨?_, h.start, h.limit⟩
    rw [Option.getD_some]
    refine (bufferPut_readPtr _).trans ?_
    rw [h.unread]
    unfold repliesOf repliesRoom
    rw [List.take_of_length_le (by omega), List.take_of_length_le (by simp; omega)]
    simp
  · rw [dif_neg (by omega)]
    refine ⟨?_, h.start, h.limit⟩
    rw [Option.getD_none, h.unread]
    unfold repliesOf repliesRoom
    rw [List.take_append_of_le_length (by omega)]

/-- The first reply always finds room. -/
theorem queues_first {b : Buffer} (h : b.Queues []) (status : SocksReplyStatus) :
    ∃ wb, requestMarshall status b = some wb ∧ wb.Queues [status] := by
  have queued := queues_marshalled h status
  have length := bufferReadPtr_length b
  rw [h.unread, h.start] at length
  unfold requestMarshall at queued ⊢
  have room : 10 ≤ bufferWritePtr b := by
    rw [bufferWritePtr, h.limit]
    simp only [repliesOf, List.take_nil, List.flatMap_nil, List.length_nil] at length
    unfold rawBuffSize
    omega
  rw [dif_pos room] at queued ⊢
  exact ⟨_, rfl, queued⟩

/-! ## The relation -/

def Call.attempt : Call → Option Attempt
  | .connect fd addr _ result => some ⟨fd, addr, result⟩
  | _ => none

/-- What a record is to its course, in every phase before the relay. -/
structure Course.Fits (k : Course) (c : Conn) : Prop where
  socks : c.isSocks = true
  footing : c.Footing k.socket k.registered
  originFd : c.originFd = k.originFd
  socket : k.isOpen = true → 0 ≤ k.socket
  references : c.references = 1 + k.registered.toNat + k.leaked
  released : .released ∉ c.calls
  left : c.originResolutionCurrent = k.left
  tried : c.calls.filterMap Call.attempt = k.tried
  established : k.established = true →
    .counted ∈ c.calls ∧ .getsockopt k.socket (some none) ∈ c.calls
  stale : k.registered = true → k.isOpen = false → c.interestOf k.socket = opNoop

/-- The status of the origin's union. -/
def Socks5.Stands (c : Socks5) (status : SocksReplyStatus) : Prop :=
  ∃ conn, c.orig = .conn conn ∧ conn.status = status

/-- The replies were not sent yet. -/
structure Course.Waits (k : Course) (c : Conn) : Prop where
  sent : sentTo c.clientFd c.calls = k.base
  queue : c.writeBuffer.Queues k.said

/-- What an attempt leaves watched. -/
def Course.Watches (k : Course) (c : Conn) : Prop :=
  match k.phase with
  | .pending => c.interestOf c.clientFd = opNoop ∧ c.interestOf k.socket = opWrite ∧
      k.registered = true ∧ k.isOpen = true ∧ (k.status = .succeeded → k.said = [])
  | .immediate => c.interestOf c.clientFd = opRead ∧ c.interestOf k.socket = opRead ∧
      k.registered = true ∧ k.isOpen = true
  | .failing => c.interestOf c.clientFd = opWrite ∧ k.status ≠ .succeeded ∧
      (k.registered = true → c.interestOf k.socket = opNoop)
  | _ => False

/-- The request is in the union of the client, and its parser was not freed. -/
def Socks5.Requested (c : Socks5) : Prop := ∃ d, c.client = .request d ∧ d.parser ≠ .freed

/-- The record between attempts, with its machine in REQUEST_CONNECTING. -/
structure Course.Tries (k : Course) (c : Conn) : Prop where
  fits : k.Fits c
  waits : k.Waits c
  request : c.Requested
  conn : c.orig = .conn ⟨c.clientFd, -1, k.status⟩

/-- An open socket of the record has its item. -/
def Course.Paired (k : Course) : Prop := k.isOpen = true → k.registered = true

/-- The record whose replies are being sent. -/
structure Course.Writes (k : Course) (c : Conn) : Prop where
  fits : k.Fits c
  paired : k.Paired
  client : c.interestOf c.clientFd = opWrite
  origin : k.registered = true → c.interestOf k.socket = opNoop
  status : c.Stands k.status
  request : ∃ d, c.client = .request d
  bytes : sentTo c.clientFd c.calls ++ bufferReadPtr c.writeBuffer = k.base ++ repliesOf k.said
  ahead : k.base <+: sentTo c.clientFd c.calls

/-- Every reference stands for an item, and the origin's item for the open socket. -/
def Course.Clean (k : Course) : Prop := k.leaked = 0 ∧ (k.registered = true → k.isOpen = true)

/-- What the end of a course leaves: an item that nothing watches at most, and after a
clean course no item and one release. -/
def Course.Ended (k : Course) (c : Conn) : Prop :=
  (∀ fd, c.Holds fd → c.interestOf fd = opNoop) ∧
    (k.Clean → (∀ fd, ¬ c.Holds fd) ∧ c.calls.count .released = 1)

def Course.Place (k : Course) (s : Session) : Prop :=
  match k.phase with
  | .talking => s.Talks ∧ s.conn.Methods ∧ k = .fresh .talking [] ∧ k.Fits s.conn ∧
      s.conn.Stands .succeeded ∧ s.conn.writeBuffer.limit = rawBuffSize ∧ s.conn.writeBuffer.Rewound
  | .reading => s.In .requestRead ∧ s.conn.interestOf s.conn.clientFd = opRead ∧
      k = .fresh .reading k.base ∧ k.Fits s.conn ∧ k.Waits s.conn ∧ s.conn.Stands .succeeded ∧
      ∃ d fed, s.conn.client = .request d ∧ d.status = .succeeded ∧
        d.parser = .live (requestParse fed)
  | .broken => s.In .requestRead ∧ s.conn.interestOf s.conn.clientFd = opWrite ∧
      k = .fresh .broken k.base ∧ k.Fits s.conn
  | .resolving => s.In .requestResolv ∧ s.conn.interestOf s.conn.clientFd = opNoop ∧
      k = .fresh .resolving k.base ∧ k.Fits s.conn ∧ k.Waits s.conn ∧ s.conn.Stands .succeeded ∧
      s.conn.Requested
  | .pending | .immediate | .failing => s.In .requestConnecting ∧ k.Tries s.conn ∧ k.Watches s.conn
  | .writing => s.In .requestWrite ∧ k.Writes s.conn
  | .copying => s.In .copy ∧ k.Fits s.conn ∧ k.Paired ∧ ∃ I, s.conn.Copying I ∧ s.conn.Watched I
  | .done => s.In .done ∧ k.Ended s.conn
  | .failed => s.In .error ∧ k.Ended s.conn

/-! ## The phase of a state -/

section
variable {k : Course} {s : Session}

/-- The states in which a phase can be found. -/
def Phase.covers : Phase → SocksV5State → Bool
  | .talking, state => state ∈ [.helloRead, .helloWrite, .userpassRead, .userpassWrite]
  | .reading, state | .broken, state => state = .requestRead
  | .resolving, state => state = .requestResolv
  | .pending, state | .immediate, state | .failing, state => state = .requestConnecting
  | .writing, state => state = .requestWrite
  | .copying, state => state = .copy
  | .done, state => state = .done
  | .failed, state => state = .error

theorem in_unique {state state' : SocksV5State} (h : s.In state) (h' : s.In state') : state = state' :=
  SocksV5State.num_inj (Option.some.inj (h.2.symm.trans h'.2))

theorem place_covers (place : k.Place s) {state : SocksV5State} (at' : s.In state) :
    k.phase.covers state = true := by
  cases phase : k.phase <;> simp only [Course.Place, phase] at place
  case talking =>
    have num := at'.2
    obtain ⟨⟨⟨first, -⟩ | current | current, -⟩ | ⟨current | current, -⟩, -⟩ := place
    · exact absurd (first.symm.trans num) (by simp)
    all_goals
      obtain rfl := SocksV5State.num_inj (Option.some.inj (num.symm.trans current))
      rfl
  all_goals
    obtain rfl := in_unique at' place.1
    rfl

theorem place_tries (place : k.Place s) (at' : s.In .requestConnecting) : k.Tries s.conn := by
  have covers := place_covers place at'
  cases phase : k.phase <;> rw [phase] at covers <;> first | exact absurd covers (by decide) | skip
  case pending | immediate | failing =>
    simp only [Course.Place, phase] at place
    exact place.2.1

end

end SocksProxy
