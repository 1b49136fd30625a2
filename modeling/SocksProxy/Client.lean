import SocksProxy.Accounts

/-!
# client/clientUtils.c: the management client

An array is the list of its bytes, and a store past its end is a fault. What
`recv` leaves of an array is the bytes it stored: to read any other is a fault too.
-/

namespace SocksProxy.Client

open Lib

/-- Stores at `buffer + i`. -/
def put (buffer : List UInt8) (i : Nat) (bytes : List UInt8) : Result (List UInt8) :=
  if i + bytes.length ≤ buffer.length then
    .ok (buffer.take i ++ bytes ++ buffer.drop (i + bytes.length))
  else .error .outOfBounds

/-- `strcpy(buffer + i, s)`; a C string is written as its characters. -/
def strcpy (buffer : List UInt8) (i : Nat) (s : List UInt8) : Result (List UInt8) :=
  put buffer i (s ++ [0])

/-! ## What the client sends -/

/-- The bytes that `send_credentials` hands to `send`. -/
def sendCredentials (username password : List UInt8) : Result (List UInt8) := do
  let buffer ← put (mallocBytes 510) 0 [0x01]
  let userlen := username.length
  let buffer ← put buffer 1 [UInt8.ofNat userlen]
  let buffer ← strcpy buffer 2 username
  let passlen := password.length
  let buffer ← put buffer (2 + userlen) [UInt8.ofNat passlen]
  let buffer ← strcpy buffer (3 + userlen) password
  .ok (buffer.take (userlen + passlen + 3))

/-- `scanf("%s", …)` into an array of `size` bytes; the token ends up as a C string. -/
def scanToken (size : Nat) (token : List UInt8) : Result (List UInt8) :=
  if token.length < size then .ok (chars token) else .error .outOfBounds

/-- The array, and the number of its bytes to send. -/
def addUser (buffer username password : List UInt8) : Result (List UInt8 × Nat) := do
  let username ← scanToken 255 username
  let nusername := username.length
  let password ← scanToken 255 password
  let npassword := password.length
  let buffer ← put buffer 1 [UInt8.ofNat nusername]
  let buffer ← strcpy buffer 2 username
  let buffer ← put buffer (nusername + 2) [UInt8.ofNat npassword]
  let buffer ← strcpy buffer (nusername + 3) password
  .ok (buffer, nusername + npassword + 3)

def deleteUser (buffer username : List UInt8) : Result (List UInt8 × Nat) := do
  let username ← scanToken 255 username
  let nusername := username.length
  let buffer ← put buffer 1 [UInt8.ofNat nusername]
  let buffer ← strcpy buffer 2 username
  .ok (buffer, nusername + 2)

def tolower (b : UInt8) : UInt8 := if 0x41 ≤ b && b ≤ 0x5A then b + 0x20 else b

/-- `none` is the return value -1. -/
def disableEnable (buffer onOff : List UInt8) : Result (Option (List UInt8 × Nat)) := do
  let onOff ← scanToken 50 onOff
  let onOff := onOff.map tolower
  if onOff = [0x6F, 0x6E] then
    let buffer ← put buffer 1 [0x00]
    .ok (some (buffer, 2))
  else if onOff = [0x6F, 0x66, 0x66] then
    let buffer ← put buffer 1 [0x01]
    .ok (some (buffer, 2))
  else .ok none

/-- What is typed: the index, and the tokens that it asks for. -/
structure Typed where
  index : Int
  username : List UInt8
  password : List UInt8
  onOff : List UInt8

/-- The bytes that `send_request` hands to `send`, or -1. -/
def sendRequest (typed : Typed) : Result (Option (List UInt8)) := do
  let buffer := mallocBytes 512
  let simple (b : UInt8) : Result (Option (List UInt8)) := do
    let buffer ← put buffer 0 [b]
    .ok (some (buffer.take 1))
  match typed.index with
  | 0 => simple 0x00
  | 1 => simple 0x01
  | 2 => simple 0x02
  | 3 => simple 0x03
  | 4 => simple 0x04
  | 5 => simple 0x05
  | 6 => simple 0x06
  | 7 => simple 0x07
  | 8 => simple 0x08
  | 9 => simple 0x09
  | 10 => do
    let buffer ← put buffer 0 [0x0A]
    let r ← addUser buffer typed.username typed.password
    .ok (some (r.1.take r.2))
  | 11 => do
    let buffer ← put buffer 0 [0x0B]
    let r ← deleteUser buffer typed.username
    .ok (some (r.1.take r.2))
  | 12 => do
    let buffer ← put buffer 0 [0x0C]
    let r ← disableEnable buffer typed.onOff
    .ok (r.map fun r => r.1.take r.2)
  | 13 => do
    let buffer ← put buffer 0 [0x0D]
    let r ← disableEnable buffer typed.onOff
    .ok (r.map fun r => r.1.take r.2)
  | _ => simple 0xFF

/-! ## What the client shows -/

def byteAt (received : List UInt8) (i : Nat) : Result UInt8 :=
  match received[i]? with
  | some b => .ok b
  | none => .error .uninitialised

/-- The loop of `supported_indexes` from `i` on, with `n` indexes to go. -/
def supportedLoop (received : List UInt8) : Nat → Nat → Result (List UInt8)
  | 0, _ => .ok []
  | n + 1, i => do
    let b ← byteAt received (2 + i)
    let rest ← supportedLoop received n (i + 1)
    .ok (b :: rest)

def supportedIndexes (received : List UInt8) : Result (List UInt8) := do
  let b ← byteAt received 1
  supportedLoop received b.toNat 0

/-- `strncpy` of `n` bytes from `i` on, which stops at a NUL. -/
def strncpy (received : List UInt8) : Nat → Nat → Result (List UInt8)
  | _, 0 => .ok []
  | i, n + 1 => do
    let b ← byteAt received i
    if b = 0 then .ok []
    else
      let rest ← strncpy received (i + 1) n
      .ok (b :: rest)

/-- The loop of `list_users` at `index`, with `n` users to go. -/
def listLoop (received : List UInt8) : Nat → Nat → Result (List (List UInt8))
  | 0, _ => .ok []
  | n + 1, index => do
    let userLen ← byteAt received index
    let aux ← strncpy received (index + 1) userLen.toNat
    let rest ← listLoop received n (index + 1 + userLen.toNat)
    .ok (aux :: rest)

def listUsers (received : List UInt8) : Result (List (List UInt8)) := do
  let b ← byteAt received 1
  listLoop received b.toNat 2

/-- The bytes are put together in the order of the host. -/
def castUint32 (received : List UInt8) : Result UInt32 := do
  let b₁ ← byteAt received 1
  let b₂ ← byteAt received 2
  let b₃ ← byteAt received 3
  let b₄ ← byteAt received 4
  .ok (b₁.toUInt32 ||| b₂.toUInt32 <<< 8 ||| b₃.toUInt32 <<< 16 ||| b₄.toUInt32 <<< 24)

inductive Shown
  | indexes (supported : List UInt8)
  | users (names : List (List UInt8))
  | stats (value : Nat)
  | done
  deriving DecidableEq, Repr

/-- `request_response` on what its one `recv` stored; `none` is the return value -1. -/
def requestResponse (received : List UInt8) (reqIndex : Nat) : Result (Option Shown) := do
  let status ← byteAt received 0
  if status ≠ 0x00 then .ok none
  else
    match reqIndex with
    | 0 => do
      let supported ← supportedIndexes received
      .ok (some (.indexes supported))
    | 1 => do
      let names ← listUsers received
      .ok (some (.users names))
    | 2 | 3 | 4 | 5 | 6 | 7 | 8 | 9 => do
      let stats ← castUint32 received
      .ok (some (.stats stats.toNat))
    | 10 | 11 | 12 | 13 => .ok (some .done)
    | _ => .ok none

end SocksProxy.Client
