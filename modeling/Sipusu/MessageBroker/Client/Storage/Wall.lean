import Sipusu.Foundation.Text

/-!
# The session log

The `WALL` part of `src/message_broker/client/storage.rs`. A log file holds one
line for each event. The reader takes it in pieces of 512 octets and looks for
the lines of each piece on its own, so a line that crosses from one piece into
the next makes it index past the end of its buffer.
-/

namespace Sipusu.MessageBroker

open Sipusu.Foundation

/-- `enum EventType`. The number is the time at which the session expires. -/
inductive EventType where
  | clientCreated
  | clientDisconnected (expiration : UInt64)
  | disconnectByServer (expiration : UInt64)
  | clientRestored
deriving DecidableEq, Repr

/-- `struct WALL`. -/
structure WALL where
  time : UInt64
  value : EventType
deriving DecidableEq, Repr

namespace WALL

def notRegisteredEvent : IoError := ⟨.invalidData, "not registered eventt"⟩

def noExpirationValue : IoError := ⟨.invalidData, "no value for set expiration"⟩

def invalidExpirationNumber : IoError := ⟨.invalidData, "invalid expiration number"⟩

/-- `parse::<u64>`. -/
def parseU64 (text : Bytes) : Option UInt64 := (Text.parse (2 ^ 64) text).map UInt64.ofNat

/-- The expiration time among the words after the name of an event. -/
def expiration : List Bytes → Outcome IoError UInt64
  | [] => .err noExpirationValue
  | part :: _ =>
      match parseU64 part with
      | some time => .ok time
      | none => .err invalidExpirationNumber

/-- The event that the words after the time name. -/
def deserializeEvent : List Bytes → Outcome IoError EventType
  | [] => .err notRegisteredEvent
  | name :: rest =>
      if name = Text.ascii "ClientCreated" then .ok .clientCreated
      else if name = Text.ascii "ClientDisconnected" then do
        return .clientDisconnected (← expiration rest)
      else if name = Text.ascii "DisconnectByServer" then do
        return .disconnectByServer (← expiration rest)
      else if name = Text.ascii "ClientRestored" then .ok .clientRestored
      else .err notRegisteredEvent

/-- `WALL::deserialize`. A missing or malformed time aborts. -/
def deserialize (line : Bytes) : Outcome IoError WALL :=
  match Text.words (Text.trim line) with
  | [] => .panic
  | part :: rest =>
      match parseU64 part with
      | none => .panic
      | some time => do
          let value ← deserializeEvent rest
          return { time, value }

/-- The text of an event. -/
def serializeEvent : EventType → Bytes
  | .clientCreated => Text.ascii "ClientCreated"
  | .clientDisconnected u => Text.ascii "ClientDisconnected" ++ 0x20 :: Text.decimal u.toNat
  | .disconnectByServer u => Text.ascii "DisconnectByServer" ++ 0x20 :: Text.decimal u.toNat
  | .clientRestored => Text.ascii "ClientRestored"

/-- The text of a line, without the newline. -/
def body (wall : WALL) : Bytes :=
  Text.decimal wall.time.toNat ++ 0x20 :: serializeEvent wall.value

/-- `WALL::serialize`. -/
def serialize (wall : WALL) : Bytes := wall.body ++ [0x0A]

end WALL

/-- What `write_wall` adds to a file. -/
def writeWall (wall : List WALL) : Bytes := wall.flatMap WALL.serialize

/-- The octets up to the next newline, which the index `i` of the inner loop looks
for. Without one the index leaves the buffer. -/
def takeLine {ε : Type} : Reader ε Bytes
  | [] => .panic
  | byte :: rest =>
      if byte = 0x0A then .ok ([byte], rest)
      else takeLine rest >>= fun result => .ok (byte :: result.1, result.2)

/-- One line of the inner loop of `read_wall`. -/
def readLine (wall : List WALL) : Reader IoError (List WALL) := do
  let b ← takeLine
  let des ← Reader.lift (WALL.deserialize b)
  return wall ++ [des]

/-- The length of the buffer that `ClientStore::restore` passes to `read_wall`. -/
def wallBuffer : Nat := 512

/-- One turn of the outer loop of `read_wall`: fill the buffer, then read the lines
in it. -/
def readChunk (wall : List WALL) : Reader IoError (List WALL) := do
  let left ← Reader.remaining
  let read ← Reader.splitTo (min wallBuffer left)
  Reader.within read (Reader.whileNonempty readLine wall)

/-- `read_wall`, on the content of the file. -/
def readWall (file : Bytes) : Outcome IoError (List WALL) :=
  Reader.whileNonempty readChunk [] file >>= fun result => .ok result.1

namespace WALL

theorem parseU64_decimal (n : UInt64) : parseU64 (Text.decimal n.toNat) = some n := by
  simp [parseU64, Text.parse_decimal n.toNat_lt]

/-- Every event is written as its words. -/
theorem words_serializeEvent (event : EventType) :
    Text.words (serializeEvent event) =
      match event with
      | .clientCreated => [Text.ascii "ClientCreated"]
      | .clientDisconnected u => [Text.ascii "ClientDisconnected", Text.decimal u.toNat]
      | .disconnectByServer u => [Text.ascii "DisconnectByServer", Text.decimal u.toNat]
      | .clientRestored => [Text.ascii "ClientRestored"] := by
  have number : ∀ u : UInt64, Text.words (Text.decimal u.toNat) = [Text.decimal u.toNat] :=
    fun u => Text.words_single (Text.decimal_ne_nil _) (Text.decimal_printable _)
  cases event with
  | clientCreated => exact Text.words_single (by decide) (by decide)
  | clientRestored => exact Text.words_single (by decide) (by decide)
  | clientDisconnected u =>
    rw [serializeEvent, Text.words_append (by decide) (by decide), number]
  | disconnectByServer u =>
    rw [serializeEvent, Text.words_append (by decide) (by decide), number]

theorem deserializeEvent_words (event : EventType) :
    deserializeEvent (Text.words (serializeEvent event)) = .ok event := by
  rw [words_serializeEvent]
  cases event with
  | clientCreated => rfl
  | clientRestored => rfl
  | clientDisconnected u =>
    have other : Text.ascii "ClientDisconnected" ≠ Text.ascii "ClientCreated" := by decide
    simp [deserializeEvent, other, expiration, parseU64_decimal]
  | disconnectByServer u =>
    have created : Text.ascii "DisconnectByServer" ≠ Text.ascii "ClientCreated" := by decide
    have left : Text.ascii "DisconnectByServer" ≠ Text.ascii "ClientDisconnected" := by decide
    simp [deserializeEvent, created, left, expiration, parseU64_decimal]

/-- The text of an event ends with a printing character. -/
theorem serializeEvent_getLast (event : EventType) :
    ∃ last, (serializeEvent event).getLast? = some last ∧ Text.Graphic last := by
  have number : ∀ (name : Bytes) (u : UInt64), ∃ last,
      (name ++ 0x20 :: Text.decimal u.toNat).getLast? = some last ∧ Text.Graphic last := by
    intro name u
    obtain ⟨last, isLast⟩ := Option.isSome_iff_exists.mp
      (List.getLast?_isSome.mpr (Text.decimal_ne_nil u.toNat))
    refine ⟨last, ?_, Text.decimal_printable _ last (List.mem_of_getLast? isLast)⟩
    rw [List.append_cons, List.getLast?_append, isLast]
    rfl
  cases event with
  | clientCreated => exact ⟨0x64, rfl, by decide⟩
  | clientRestored => exact ⟨0x64, rfl, by decide⟩
  | clientDisconnected u => exact number _ u
  | disconnectByServer u => exact number _ u

/-- Reading a line back inverts writing it. -/
theorem deserialize_serialize (wall : WALL) : deserialize wall.serialize = .ok wall := by
  have digits := Text.decimal_ne_nil wall.time.toNat
  obtain ⟨first, rest, starts⟩ := List.exists_cons_of_ne_nil digits
  have firstGraphic : Text.Graphic first :=
    Text.decimal_printable wall.time.toNat first (by simp [starts])
  obtain ⟨last, ends, lastGraphic⟩ := serializeEvent_getLast wall.value
  have trimmed : Text.trim wall.serialize = wall.body := by
    refine Text.trim_line ?_ firstGraphic ?_ lastGraphic
    · simp [body, starts]
    · rw [body, List.append_cons, List.getLast?_append, ends]
      rfl
  have parts : Text.words wall.body =
      Text.decimal wall.time.toNat :: Text.words (serializeEvent wall.value) :=
    Text.words_append digits (Text.decimal_printable _) _
  simp [deserialize, trimmed, parts, parseU64_decimal, deserializeEvent_words]

/-- A line has its only newline at its end. -/
theorem newline_not_mem_body (wall : WALL) : 0x0A ∉ wall.body := by
  have unprintable : ¬ Text.Graphic 0x0A := by decide
  have number : ∀ n : Nat, 0x0A ∉ Text.decimal n :=
    fun n member => unprintable (Text.decimal_printable n _ member)
  rw [body, List.mem_append, List.mem_cons]
  rintro (inTime | blank | inEvent)
  · exact number _ inTime
  · cases blank
  · revert inEvent
    cases wall.value with
    | clientCreated => decide
    | clientRestored => decide
    | clientDisconnected u =>
      rw [serializeEvent, List.mem_append, List.mem_cons]
      rintro (inName | blank | inNumber)
      · revert inName
        decide
      · cases blank
      · exact number _ inNumber
    | disconnectByServer u =>
      rw [serializeEvent, List.mem_append, List.mem_cons]
      rintro (inName | blank | inNumber)
      · revert inName
        decide
      · cases blank
      · exact number _ inNumber

end WALL

end Sipusu.MessageBroker
