import Sipusu.Protocol.Frame
import Sipusu.Protocol.V5.Layouts

/-!
# Packets that are cut short

The decoders of CONNECT, PUBLISH and SUBSCRIBE packets abort on octets that break off inside
a field, and on no others.
-/

namespace Sipusu.Protocol

open Sipusu.Foundation Sipusu.Foundation.Reader V5

namespace V5

/-- Octets that break off in a length, or behind a length that they satisfy. -/
def CutBehindLength (body : Field) (buffer : Bytes) : Prop :=
  Varint.Cut 3 buffer ∨ ∃ length rest, buffer = length ++ rest ∧ Varint.Whole 3 length ∧
    Varint.value length ≤ rest.length ∧ body.cut rest

/-- A length that is checked against what is left of the buffer. -/
theorem cutBehindLength_iff {ε α : Type} {length : Reader ε Nat}
    (yields : Yields length (fun n used => Varint.Whole 3 used ∧ n = Varint.value used)
      (Varint.Cut 3)) (error : ε) {next : Reader ε α} {body : Field} (reads : Reads next body)
    (buffer : Bytes) :
    (length >>= fun n => remaining >>= fun available => ensure (n ≤ available) error >>= fun _ =>
      next) buffer = .panic ↔ CutBehindLength body buffer := by
  rw [bind_eq_panic, yields.aborts]
  refine or_congr Iff.rfl ?_
  have checked : ∀ n rest, (remaining >>= fun available => ensure (n ≤ available) error >>=
      fun _ => next) rest = .panic ↔ n ≤ rest.length ∧ body.cut rest := by
    intro n rest
    rw [bind_apply, remaining_apply, Outcome.ok_bind]
    exact (Reads.ensure reads).aborts rest
  constructor
  · rintro ⟨n, rest, first, second⟩
    obtain ⟨used, split, whole, rfl⟩ := (yields.returns buffer n rest).mp first
    obtain ⟨enough, cut⟩ := (checked _ rest).mp second
    exact ⟨used, rest, split, whole, enough, cut⟩
  · rintro ⟨used, rest, split, whole, enough, cut⟩
    exact ⟨Varint.value used, rest, (yields.returns buffer _ rest).mpr ⟨used, split, whole, rfl⟩,
      (checked _ rest).mpr ⟨enough, cut⟩⟩

namespace Connect

/-- A CONNECT packet that breaks off inside a field. -/
def CutShort (buffer : Bytes) : Prop :=
  buffer = [] ∨ ∃ header rest, buffer = header :: rest ∧ header >>> 4 = 1 ∧
    CutBehindLength layout rest

/-- The decoder of CONNECT packets aborts exactly when the packet is cut short. -/
theorem decode_eq_panic_iff (buffer : Bytes) :
    ConnectPacket.decode buffer = .panic ↔ CutShort buffer := by
  cases buffer with
  | nil => exact iff_of_true rfl (.inl rfl)
  | cons header rest =>
    rw [ConnectPacket.decode, bind_apply, getU8_cons, Outcome.ok_bind, bind_apply, ensure_apply]
    have behind := cutBehindLength_iff RemainingLength.decode_yields "Invalid buffer supplied"
      decodeProtocol_reads rest
    by_cases isConnect : header >>> 4 = 1
    · rw [if_pos isConnect, Outcome.ok_bind, behind]
      simp [CutShort, isConnect]
    · rw [if_neg isConnect]
      simp [CutShort, isConnect]

end Connect

namespace Publish

/-- A PUBLISH packet that breaks off inside a field. A single octet is refused instead. -/
def CutShort (buffer : Bytes) : Prop :=
  ∃ header rest, buffer = header :: rest ∧ rest ≠ [] ∧ header >>> 4 = 3 ∧
    ∃ qos, ServiceLevel.tryFrom ((header &&& 0x06) >>> 1) = some qos ∧
      CutBehindLength (layout qos) rest

/-- The decoder of PUBLISH packets aborts exactly when the packet is cut short. -/
theorem decode_eq_panic_iff (buffer : Bytes) :
    PublishPacket.decode buffer = .panic ↔ CutShort buffer := by
  match buffer with
  | [] =>
    refine iff_of_false (Outcome.err_ne_panic _) ?_
    rintro ⟨_, _, split, _⟩
    cases split
  | [header] =>
    refine iff_of_false (Outcome.err_ne_panic _) ?_
    rintro ⟨_, rest, split, more, _⟩
    rw [List.cons.injEq] at split
    exact more split.2.symm
  | header :: second :: rest =>
    have enough : 2 ≤ (header :: second :: rest).length := by simp
    rw [PublishPacket.decode, bind_apply, remaining_apply, Outcome.ok_bind, bind_apply, ensure_apply,
      if_pos enough, Outcome.ok_bind, bind_apply, getU8_cons, Outcome.ok_bind, bind_apply, ensure_apply]
    by_cases isPublish : header >>> 4 = 3
    · rw [if_pos isPublish, Outcome.ok_bind, bind_apply]
      cases level : ServiceLevel.tryFrom ((header &&& 0x06) >>> 1) with
      | none =>
        refine iff_of_false (Outcome.err_ne_panic _) ?_
        rintro ⟨_, _, split, _, _, qos, found, _⟩
        rw [List.cons.injEq] at split
        rw [← split.1, level] at found
        cases found
      | some qos =>
        have behind := cutBehindLength_iff (RemainingLength.decode_yields.mapErr fun _ =>
          "Failed to decode remaining length") "Buffer too short for remaining length"
          (decodeBody_reads (header &&& 0x08 ≠ 0) qos (header &&& 0x01 ≠ 0)) (second :: rest)
        rw [ofOption_some, Outcome.ok_bind, behind]
        simp [CutShort, isPublish, level]
    · rw [if_neg isPublish]
      simp [CutShort, isPublish]

end Publish

namespace SubscribePacket

/-- A SUBSCRIBE packet that breaks off inside a field. -/
def CutShort (buffer : Bytes) : Prop :=
  buffer = [] ∨ ∃ header rest, buffer = header :: rest ∧ header >>> 4 = 8 ∧ layout.cut rest

/-- The decoder of SUBSCRIBE packets aborts exactly when the packet is cut short. -/
theorem decode_eq_panic_iff (buffer : Bytes) :
    SubscribePacket.decode buffer = .panic ↔ CutShort buffer := by
  cases buffer with
  | nil => exact iff_of_true rfl (.inl rfl)
  | cons header rest =>
    rw [SubscribePacket.decode, bind_apply, getU8_cons, Outcome.ok_bind, bind_apply, ensure_apply]
    by_cases isSubscribe : header >>> 4 = 8
    · rw [if_pos isSubscribe, Outcome.ok_bind, skipHeader_eq_panic_iff]
      simp [CutShort, isSubscribe]
    · rw [if_neg isSubscribe]
      simp [CutShort, isSubscribe]

end SubscribePacket
end V5

namespace ClientPacketV5

/-- A packet of a connected client that breaks off inside a field. -/
def CutShort (buffer : Bytes) : Prop :=
  SubscribePacket.CutShort buffer ∨ Publish.CutShort buffer

theorem decode_eq_panic_iff (buffer : Bytes) : decode buffer = .panic ↔ CutShort buffer := by
  cases buffer with
  | nil => exact iff_of_true rfl (.inl (.inl rfl))
  | cons header rest =>
    have subscribe : SubscribePacket.CutShort (header :: rest) → header >>> 4 = 8 := by
      rintro (split | ⟨_, _, split, kind, _⟩)
      · cases split
      · rw [List.cons.injEq] at split
        rwa [split.1]
    have publish : Publish.CutShort (header :: rest) → header >>> 4 = 3 := by
      rintro ⟨_, _, split, _, kind, _⟩
      rw [List.cons.injEq] at split
      rwa [split.1]
    rw [decode_cons]
    split
    · rename_i kind
      have other : ¬ Publish.CutShort (header :: rest) := fun cut =>
        absurd (kind.symm.trans (publish cut)) (by decide)
      rw [CutShort, or_iff_left other, ← SubscribePacket.decode_eq_panic_iff]
      cases SubscribePacket.decode (header :: rest) <;> simp
    · rename_i kind
      have other : ¬ SubscribePacket.CutShort (header :: rest) := fun cut =>
        absurd (kind.symm.trans (subscribe cut)) (by decide)
      rw [CutShort, or_iff_right other, ← Publish.decode_eq_panic_iff, mapErr_apply]
      cases PublishPacket.decode (header :: rest) <;> simp [Outcome.mapErr]
    · rename_i kind
      refine iff_of_false (Outcome.ok_ne_panic _) ?_
      rintro (cut | cut)
      · exact absurd (kind.symm.trans (subscribe cut)) (by decide)
      · exact absurd (kind.symm.trans (publish cut)) (by decide)
    · rename_i notSubscribe notPublish _
      refine iff_of_false (Outcome.err_ne_panic _) ?_
      rintro (cut | cut)
      · exact notSubscribe (subscribe cut)
      · exact notPublish (publish cut)

end ClientPacketV5

/-- The decoders return on all octets but those of a packet that is cut short. -/
theorem decoders_return_iff (buffer : Bytes) :
    (ConnectPacket.decode buffer ≠ .panic ↔ ¬ Connect.CutShort buffer) ∧
      (buffer ≠ [] →
        (ClientPacketV5.decode buffer ≠ .panic ↔ ¬ ClientPacketV5.CutShort buffer)) :=
  ⟨not_congr (Connect.decode_eq_panic_iff buffer),
    fun _ => not_congr (ClientPacketV5.decode_eq_panic_iff buffer)⟩

/-- A CONNECT packet and a SUBSCRIBE packet with a topic are not cut short, and without its last
octet the second one is. -/
theorem decoders_return_iff_lastOctet :
    ¬ Connect.CutShort [0x10, 0x0E, 0x00, 0x04, 0x4D, 0x51, 0x54, 0x54, 0x05, 0x00, 0x00, 0x3C,
      0x00, 0x00, 0x01, 0x61] ∧
      ¬ ClientPacketV5.CutShort [0x82, 0x07, 0x00, 0x01, 0x00, 0x00, 0x01, 0x74, 0x01] ∧
      ClientPacketV5.CutShort [0x82, 0x07, 0x00, 0x01, 0x00, 0x00, 0x01, 0x74] := by
  refine ⟨(decoders_return_iff _).1.mp nofun,
    ((decoders_return_iff _).2 (List.cons_ne_nil _ _)).mp nofun, ?_⟩
  by_contra whole
  exact ((decoders_return_iff _).2 (List.cons_ne_nil _ _)).mpr whole rfl

/-- A CONNECT packet of one octet, and a SUBSCRIBE packet whose remaining length counts an
octet that is missing. -/
theorem decoders_abort_when_short :
    ConnectPacket.decode [0x10] = .panic ∧ ClientPacketV5.decode [0x82, 0x01] = .panic :=
  ⟨rfl, rfl⟩

end Sipusu.Protocol
