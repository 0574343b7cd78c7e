import Sipusu.Protocol.V5.Fields
import Sipusu.Protocol.V5.Subsack

/-!
# Reading acknowledgements

What a client makes of acknowledgements: parsers of SUBACK packets and of the four packets
that acknowledge a PUBLISH packet, as the protocol lays these out. They are no part of the
broker. A missing list of user properties and an empty one are the same octets.
-/

namespace Sipusu.Protocol.V5

open Sipusu.Foundation

namespace Ack

/-- What the properties of an acknowledgement say. -/
structure Properties where
  reasonString : Option Str
  userProperties : List (Str × Str)
deriving DecidableEq

/-- No properties. -/
def Properties.empty : Properties := { reasonString := none, userProperties := [] }

/-- One property. -/
def parseEntry (properties : Properties) : Reader String Properties := do
  let identifier ← Reader.getU8
  match identifier with
  | 0x1F =>
      let reason ← decodeUtf8String
      return { properties with reasonString := some reason }
  | 0x26 =>
      let pair ← decodeStringPair
      return { properties with userProperties := properties.userProperties ++ [pair] }
  | _ => Reader.fail "not a property of an acknowledgement"

/-- As many properties as there are octets for. -/
def parseProperties : Reader String Properties := Reader.whileNonempty parseEntry .empty

/-- A property of an acknowledgement. -/
inductive Entry where
  | reasonString (reason : Str)
  | userProperty (pair : Str × Str)

namespace Entry

/-- The octets of a property. -/
def bytes : Entry → Bytes
  | .reasonString reason => 0x1F :: lengthPrefixed reason.bytes
  | .userProperty pair => pairBytes pair

/-- Lengths fit into their fields. -/
def Fits : Entry → Prop
  | .reasonString reason => reason.len < 65536
  | .userProperty pair => pair.1.len < 65536 ∧ pair.2.len < 65536

/-- The properties with one more. -/
def apply (properties : Properties) : Entry → Properties
  | .reasonString reason => { properties with reasonString := some reason }
  | .userProperty pair =>
      { properties with userProperties := properties.userProperties ++ [pair] }

end Entry

/-- The properties that an encoder writes, in its order. -/
def written (properties : Puback.Properties) : List Entry :=
  (properties.reasonString.map Entry.reasonString).toList ++
    (properties.userProperties.getD []).map Entry.userProperty

/-- What these properties say. -/
def ofPuback (properties : Puback.Properties) : Properties :=
  { reasonString := properties.reasonString
    userProperties := properties.userProperties.getD [] }

/-- The octets that these properties take. -/
def size (properties : Puback.Properties) : Nat :=
  (properties.reasonString.elim 0 fun reason => 3 + reason.len) +
    pairsSize (properties.userProperties.getD [])

theorem parseEntry_bytes {entry : Entry} (fits : entry.Fits) (properties : Properties)
    (rest : Bytes) :
    parseEntry properties (entry.bytes ++ rest) = .ok (entry.apply properties, rest) := by
  cases entry with
  | reasonString reason =>
    simp [parseEntry, Entry.bytes, Entry.apply,
      decodeUtf8String_form (show reason.len < 65536 from fits)]
  | userProperty pair =>
    obtain ⟨keyFits, valueFits⟩ := fits
    simp [parseEntry, Entry.bytes, Entry.apply, pairBytes, decodeStringPair_form keyFits valueFits]

theorem parseEntry_shrinks : Reader.Shrinks parseEntry := by
  apply Reader.shrinks_of_getU8 fun _ => rfl
  intro properties identifier
  split
  · exact (decodeUtf8String_consumes.map _).mono fun _ => trivial
  · exact (decodeStringPair_consumes.map _).mono fun _ => trivial
  · intro buffer value rest failed
    cases failed

theorem foldl_written (properties : Puback.Properties) :
    (written properties).foldl Entry.apply .empty = ofPuback properties := by
  have users (pairs : List (Str × Str)) (start : Properties) :
      (pairs.map Entry.userProperty).foldl Entry.apply start =
        { start with userProperties := start.userProperties ++ pairs } := by
    induction pairs generalizing start with
    | nil => simp
    | cons pair rest inductionHypothesis => simp [inductionHypothesis, Entry.apply]
  rw [written, List.foldl_append, users]
  cases reason : properties.reasonString <;> simp [Properties.empty, Entry.apply, ofPuback, reason]

theorem encodeReasonString_eq_ok {text : Option Str} {octets : Bytes} :
    Puback.encodeReasonString text = .ok octets ↔
      (∀ reason ∈ text, reason.len < 65536) ∧
        octets = (text.map Entry.reasonString).toList.flatMap Entry.bytes := by
  cases text with
  | none => simp [Puback.encodeReasonString, eq_comm]
  | some text =>
    rw [Puback.encodeReasonString, Outcome.bind_eq_ok]
    simp only [encodeUtf8String_eq_ok, Outcome.pure_eq, Outcome.ok.injEq]
    constructor
    · rintro ⟨_, ⟨fits, rfl⟩, rfl⟩
      exact ⟨by simpa using fits, by simp [Entry.bytes]⟩
    · rintro ⟨fits, rfl⟩
      exact ⟨_, ⟨fits text rfl, rfl⟩, by simp [Entry.bytes]⟩

/-- An encoder writes properties whose strings fit, and refuses all others. -/
theorem encodeProperties_eq_ok {properties : Puback.Properties} {octets : Bytes} :
    Puback.encodeProperties properties = .ok octets ↔
      (∀ entry ∈ written properties, entry.Fits) ∧
        octets = (written properties).flatMap Entry.bytes := by
  have users {octets : Bytes} := @pairsLoop_eq_ok Puback.encodeUserProperties rfl
    (fun key value rest => rfl) (properties.userProperties.getD []) octets
  rw [Puback.encodeProperties, written, List.flatMap_append, List.flatMap_map,
    List.forall_mem_append, List.forall_mem_map]
  simp only [Outcome.bind_eq_ok, encodeReasonString_eq_ok, users, Outcome.pure_eq,
    Outcome.ok.injEq]
  constructor
  · rintro ⟨_, ⟨reasonFits, rfl⟩, _, ⟨usersFit, rfl⟩, rfl⟩
    exact ⟨⟨by simpa [Entry.Fits] using reasonFits, usersFit⟩, rfl⟩
  · rintro ⟨⟨reasonFits, usersFit⟩, rfl⟩
    exact ⟨_, ⟨by simpa [Entry.Fits] using reasonFits, rfl⟩, _, ⟨usersFit, rfl⟩, rfl⟩

theorem length_written (properties : Puback.Properties) :
    ((written properties).flatMap Entry.bytes).length = size properties := by
  have users : (properties.userProperties.getD []).flatMap (fun pair =>
      (Entry.userProperty pair).bytes) = (properties.userProperties.getD []).flatMap pairBytes := rfl
  rw [written, List.flatMap_append, List.flatMap_map, List.length_append, users, length_pairBytes,
    size]
  cases properties.reasonString with
  | none => rfl
  | some reason =>
    simp [Entry.bytes, Str.len]
    omega

/-- Reading properties inverts writing them. -/
theorem parseProperties_written {properties : Puback.Properties}
    (fit : ∀ entry ∈ written properties, entry.Fits) :
    parseProperties ((written properties).flatMap Entry.bytes) =
      .ok (ofPuback properties, []) := by
  have filled (entry : Entry) : entry.bytes ≠ [] := by
    cases entry <;> exact List.cons_ne_nil _ _
  rw [parseProperties, Reader.whileNonempty_flatMap parseEntry_shrinks filled
    fun entry member state rest => parseEntry_bytes (fit entry member) state rest, foldl_written]

end Ack
end Sipusu.Protocol.V5
