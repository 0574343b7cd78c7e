import Sipusu.Foundation.Outcome
import Sipusu.Foundation.Utf8

/-!
# The credential file

`src/authentication.rs`: how a credential is laid out as a segment of the storage
file, how a segment is taken apart, and how the file is searched for a username.
Positions are natural numbers. Where they would drop below zero the call aborts,
as it does with overflow checks.
-/

namespace Sipusu

open Sipusu.Foundation

/-- `struct PasswordHashed`. -/
structure PasswordHashed where
  password : Str
  alg : Str
  salt : Option Str
deriving DecidableEq

/-- `enum Password`. -/
inductive Password where
  | hashed (hashed : PasswordHashed)
  | plain (text : Str)
deriving DecidableEq

/-- `struct AuthData`. -/
structure AuthData where
  username : Str
  password : Password
deriving DecidableEq

/-- `SEGMENT_SIZE`. -/
def segmentSize : Nat := 311

/-- `USERNAME_CAP`. -/
def usernameCap : Nat := 30

/-- `PASSWORD_CAP`. -/
def passwordCap : Nat := 256

/-- `ALG_CAP`. -/
def algCap : Nat := 10

/-- `SALT_CAP`. -/
def saltCap : Nat := 10

namespace AuthData

/-- `AuthData::parts`: the counter and the buffer after a column. -/
def parts (v : Str) (cap counter : Nat) (buffer : Bytes) : Nat × Bytes :=
  let counter := counter + (cap + 1)
  let buffer := buffer ++ v.bytes
  let buffer := if v.len < cap then buffer ++ List.replicate (cap - v.len) 0x00 else buffer
  (counter, buffer ++ [0x1F])

/-- `AuthData::read`, into a buffer that grows: the count it returns, and the buffer. -/
def read {ε : Type} (data : AuthData) (buffer : Bytes) : Outcome ε (Nat × Bytes) :=
  let (counter, buffer) := parts data.username usernameCap 0 buffer
  match data.password with
  | .plain _ => .panic
  | .hashed password =>
      let (counter, buffer) := parts password.password passwordCap counter buffer
      let (counter, buffer) := parts password.alg algCap counter buffer
      let salt := password.salt.getD .empty
      let (counter, buffer) := parts salt saltCap counter buffer
      .ok (counter + 1, buffer ++ [0x0A])

end AuthData

/-- `struct SegmentRead`. -/
structure SegmentRead where
  pos : Nat
  src : Bytes

namespace SegmentRead

variable {ε : Type}

/-- `SegmentRead::new`. -/
def new (pos : Nat) (src : Bytes) : SegmentRead := ⟨pos, src⟩

/-- `src[pos]`. -/
def index (src : Bytes) (pos : Nat) : Outcome ε UInt8 := Outcome.ofOption src[pos]?

/-- `&src[start..stop]`. -/
def slice (src : Bytes) (start stop : Nat) : Outcome ε Bytes :=
  if start ≤ stop ∧ stop ≤ src.length then .ok ((src.drop start).take (stop - start)) else .panic

/-- `<[u8]>::clone_from_slice`. -/
def cloneFromSlice (val source : Bytes) : Outcome ε Bytes :=
  if val.length = source.length then .ok source else .panic

/-- The `for` loop of `evaluate`, with the turns left and the next index. -/
def collect (src : Bytes) : Nat → Nat → Outcome ε Bytes
  | 0, _ => .ok []
  | turns + 1, j => do
      let byte ← index src j
      let rest ← collect src turns (j + 1)
      return byte :: rest

/-- The `while` loop of `grab`, with the turns left: where it stops. -/
def skip (src : Bytes) : Nat → Nat → Outcome ε Nat
  | 0, pos => .ok pos
  | turns + 1, pos => do
      let put ← index src pos
      if put = 0x00 then return pos + 1 else skip src turns (pos + 1)

/-- `SegmentRead::grab`. The vector it clones into has a capacity, but no octets. -/
def grab (segment : SegmentRead) (cap : Nat) : Outcome ε (Bytes × SegmentRead) := do
  let start := segment.pos + 1
  let stop := start + cap
  let pos ← skip segment.src cap start
  let placeholder ← slice segment.src pos stop
  let _ ← cloneFromSlice [] placeholder
  return (placeholder, { segment with pos := start + cap })

/-- `SegmentRead::evaluate`. -/
def evaluate (segment : SegmentRead) (target : Str) : Outcome ε (Option PasswordHashed) :=
  if usernameCap < target.len then .panic else do
    let stop := segment.pos + usernameCap
    let unameBytes ←
      collect segment.src (stop - (usernameCap - target.len) - segment.pos) segment.pos
    if unameBytes ≠ target.bytes then return none
    let segment := { segment with pos := stop }
    let (password, segment) ← segment.grab passwordCap
    let password := (Str.fromUtf8? password).getD .empty
    let (alg, segment) ← segment.grab algCap
    let alg := (Str.fromUtf8? alg).getD .empty
    let (salt, _) ← segment.grab saltCap
    if salt.length = 0 then return none
    return some ⟨password, alg, Str.fromUtf8? salt⟩

end SegmentRead

namespace AuthData

/-- `AuthData::new`. -/
def new (username password : Str) : AuthData := ⟨username, .plain password⟩

/-- The inner loop of `decode`: the index and the end of the text it leaves. The end stays 0
when no octet closes the text. -/
def findEnd (buffer : Bytes) (i : Nat) : Nat × Nat :=
  if inside : i < buffer.length then
    if buffer[i] = 0x5D then (i, i) else findEnd buffer (i + 1)
  else (i, 0)
termination_by buffer.length - i

theorem le_findEnd (buffer : Bytes) (i : Nat) : i ≤ (findEnd buffer i).1 := by
  fun_induction findEnd buffer i <;> omega

/-- The outer loop of `decode`. -/
def decodeLoop {ε : Type} (buffer : Bytes) (i : Nat) (placeholder : List Str) :
    Outcome ε (List Str) :=
  if inside : i < buffer.length then
    if buffer[i] ≠ 0x5B then decodeLoop buffer (i + 1) placeholder
    else do
      let start := i + 1
      let found := findEnd buffer start
      let encStr ← SegmentRead.slice buffer start found.2
      let encdStr ← Outcome.ofOption (Str.fromUtf8? encStr)
      decodeLoop buffer found.1 (placeholder ++ [encdStr])
  else .ok placeholder
termination_by buffer.length - i
decreasing_by
  · omega
  · have onward := le_findEnd buffer (i + 1)
    omega

/-- `AuthData::decode`. -/
def decode {ε : Type} (buffer : Bytes) : Outcome ε AuthData := do
  match ← decodeLoop buffer 0 [] with
  | [username, password] => return new username password
  | _ => .panic

end AuthData

namespace Authenticator

/-- `segread_wide`. -/
def segreadWide : Nat := 4

/-- `buffer_cap`. -/
def bufferCap : Nat := segreadWide * segmentSize

/-- What one `read_buf` after the seek leaves in the empty buffer: it fills the buffer or
reaches the end of the file. -/
def readBuf (storage : Bytes) (seekIdx : Nat) : Bytes := (storage.drop seekIdx).take bufferCap

/-- The error when no segment holds the username. -/
def notFound : IoError := ⟨.notFound, "username not found"⟩

/-- The `for` loop of `Authenticator::get` over the listed segments of the buffer. -/
def evaluateSegments (buffer : Bytes) (username : Str) :
    List Nat → Outcome IoError (Option PasswordHashed)
  | [] => .ok none
  | i :: rest => do
      match ← (SegmentRead.new (i * segmentSize) buffer).evaluate username with
      | some res => return some res
      | none => evaluateSegments buffer username rest

/-- The `loop` of `Authenticator::get`. Only a full buffer brings another turn. -/
def getLoop (storage : Bytes) (username : Str) (seekIdx : Nat) : Outcome IoError PasswordHashed :=
  let buffer := readBuf storage seekIdx
  if buffer.length = 0 then .err notFound
  else do
    match ← evaluateSegments buffer username (List.range segreadWide) with
    | some res => return res
    | none =>
        if partly : buffer.length < bufferCap then .err notFound
        else getLoop storage username (seekIdx + (segmentSize + 1))
termination_by storage.length - seekIdx
decreasing_by
  have positive : 0 < bufferCap := by decide
  simp only [buffer, readBuf, List.length_take, List.length_drop] at partly
  omega

/-- `Authenticator::get`, on the content of the storage file. -/
def get (storage : Bytes) (username : Str) : Outcome IoError PasswordHashed :=
  getLoop storage username 0

end Authenticator
end Sipusu
