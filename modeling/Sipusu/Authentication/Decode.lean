import Sipusu.Authentication
import Sipusu.Foundation.Brackets

/-!
# Credentials on the wire

`AuthData::decode` looks for texts between brackets. Its two loops share an index, and
every time the outer loop takes a turn the texts found so far are the groups of what the
index has passed. What is left of the buffer is grouped or the call aborts.
-/

namespace Sipusu.AuthData

open Sipusu.Foundation

variable {ε : Type} {buffer : Bytes}

/-- The octets of a credential: two texts in brackets, and filler around them. -/
def InGrammar (b : Bytes) (u p : Str) : Prop :=
  ∃ f0 f1 f2 : Bytes,
    b = f0 ++ 0x5B :: (u.bytes ++ 0x5D :: (f1 ++ 0x5B :: (p.bytes ++ 0x5D :: f2))) ∧
    (0x5B ∉ f0 ∧ 0x5B ∉ f1 ∧ 0x5B ∉ f2) ∧ 0x5D ∉ u.bytes ∧ 0x5D ∉ p.bytes

/-- The octets between brackets, as texts. -/
abbrev Holds (octets : Bytes) (texts : List Str) : Prop :=
  Grouped 0x5B 0x5D octets (texts.map Str.bytes)

theorem holds_pair_iff {u p : Str} : Holds buffer [u, p] ↔ InGrammar buffer u p :=
  Grouped.pair_iff

theorem holds_filler_iff {octet : UInt8} {rest : Bytes} {texts : List Str}
    (filler : octet ≠ 0x5B) : Holds (octet :: rest) texts ↔ Holds rest texts :=
  Grouped.cons_iff filler

theorem holds_text_iff {text : Str} {rest : Bytes} {texts : List Str}
    (closed : 0x5D ∉ text.bytes) :
    Holds (0x5B :: (text.bytes ++ 0x5D :: rest)) texts ↔
      ∃ others, texts = text :: others ∧ Holds rest others := by
  rw [Holds, Grouped.group_iff closed]
  constructor
  · rintro ⟨groups, same, grouped⟩
    obtain ⟨first, others, rfl, bytes, rfl⟩ := List.map_eq_cons_iff.mp same
    rw [Str.ext bytes]
    exact ⟨others, rfl, grouped⟩
  · rintro ⟨others, rfl, grouped⟩
    exact ⟨others.map Str.bytes, rfl, grouped⟩

/-- A group that is no UTF-8 is no text. -/
theorem not_holds_of_malformed {group rest : Bytes} {texts : List Str} (closed : 0x5D ∉ group)
    (malformed : Str.fromUtf8? group = none) : ¬ Holds (0x5B :: (group ++ 0x5D :: rest)) texts := by
  rw [Holds, Grouped.group_iff closed]
  rintro ⟨groups, same, -⟩
  obtain ⟨text, _, -, rfl, -⟩ := List.map_eq_cons_iff.mp same
  rw [Str.fromUtf8?_bytes] at malformed
  cases malformed

section InnerLoop

variable {i : Nat}

theorem drop_of_index (inside : i < buffer.length) :
    buffer.drop i = buffer[i] :: buffer.drop (i + 1) := List.drop_eq_getElem_cons inside

theorem lt_of_closed {group rest : Bytes} (left : buffer.drop i = group ++ 0x5D :: rest) :
    i + group.length < buffer.length := by
  have length := congrArg List.length left
  simp only [List.length_drop, List.length_append, List.length_cons] at length
  omega

theorem findEnd_of_closed {group rest : Bytes} (closed : 0x5D ∉ group)
    (left : buffer.drop i = group ++ 0x5D :: rest) :
    findEnd buffer i = (i + group.length, i + group.length) := by
  have inside : i < buffer.length := Nat.lt_of_le_of_lt (Nat.le_add_right i _) (lt_of_closed left)
  induction group generalizing i with
  | nil =>
    have octet : buffer[i] = 0x5D := by
      rw [drop_of_index inside] at left
      exact (List.cons.inj left).1
    rw [findEnd, dif_pos inside, if_pos octet]
    rfl
  | cons head tail inductionHypothesis =>
    rw [drop_of_index inside, List.cons_append] at left
    obtain ⟨octet, left⟩ := List.cons.inj left
    have other : buffer[i] ≠ 0x5D := by
      rw [octet]
      rintro rfl
      exact closed List.mem_cons_self
    have onward : i + 1 < buffer.length :=
      Nat.lt_of_le_of_lt (Nat.le_add_right _ _) (lt_of_closed left)
    rw [findEnd, dif_pos inside, if_neg other,
      inductionHypothesis (fun member => closed (List.mem_cons_of_mem _ member)) left onward]
    simp only [List.length_cons, Nat.add_assoc, Nat.add_comm 1]

theorem findEnd_of_unclosed (unclosed : 0x5D ∉ buffer.drop i) : (findEnd buffer i).2 = 0 := by
  fun_induction findEnd buffer i with
  | case1 i inside octet =>
    rw [drop_of_index inside, octet] at unclosed
    exact absurd List.mem_cons_self unclosed
  | case2 i inside other inductionHypothesis =>
    rw [drop_of_index inside] at unclosed
    exact inductionHypothesis fun member => unclosed (List.mem_cons_of_mem _ member)
  | case3 i outside => rfl

/-- A closed text is cut out whole. -/
theorem slice_of_closed {group rest : Bytes} (left : buffer.drop i = group ++ 0x5D :: rest) :
    (SegmentRead.slice buffer i (i + group.length) : Outcome ε Bytes) = .ok group := by
  have inside := lt_of_closed left
  rw [SegmentRead.slice, if_pos (by omega), left, Nat.add_sub_cancel_left, List.take_left']
  rfl

end InnerLoop

section OuterLoop

variable {i : Nat} {placeholder : List Str}

theorem decodeLoop_of_end (outside : ¬ i < buffer.length) :
    (decodeLoop buffer i placeholder : Outcome ε (List Str)) = .ok placeholder := by
  rw [decodeLoop, dif_neg outside]

theorem decodeLoop_of_filler (inside : i < buffer.length) (filler : buffer[i] ≠ 0x5B) :
    (decodeLoop buffer i placeholder : Outcome ε (List Str)) =
      decodeLoop buffer (i + 1) placeholder := by
  rw [decodeLoop, dif_pos inside, if_pos filler]

theorem decodeLoop_of_unclosed (inside : i < buffer.length) (opening : buffer[i] = 0x5B)
    (unclosed : 0x5D ∉ buffer.drop (i + 1)) :
    (decodeLoop buffer i placeholder : Outcome ε (List Str)) = .panic := by
  -- The end is still 0, which is before any start.
  rw [decodeLoop, dif_pos inside, if_neg (by simpa using opening)]
  simp [findEnd_of_unclosed unclosed, SegmentRead.slice]

theorem decodeLoop_of_closed (inside : i < buffer.length) (opening : buffer[i] = 0x5B)
    {group rest : Bytes} (closed : 0x5D ∉ group)
    (left : buffer.drop (i + 1) = group ++ 0x5D :: rest) :
    (decodeLoop buffer i placeholder : Outcome ε (List Str)) =
      Outcome.ofOption (Str.fromUtf8? group) >>= fun text =>
        decodeLoop buffer (i + 1 + group.length) (placeholder ++ [text]) := by
  rw [decodeLoop, dif_pos inside, if_neg (by simpa using opening)]
  simp only [findEnd_of_closed closed left, slice_of_closed left, Outcome.ok_bind]

/-- The loop appends the texts in the brackets it has not come to yet. -/
theorem decodeLoop_eq_ok_iff {result : List Str} :
    (decodeLoop buffer i placeholder : Outcome ε (List Str)) = .ok result ↔
      ∃ texts, Holds (buffer.drop i) texts ∧ result = placeholder ++ texts := by
  induction turns : buffer.length - i using Nat.strongRecOn generalizing i placeholder with
  | ind turns inductionHypothesis =>
    by_cases inside : i < buffer.length
    · by_cases filler : buffer[i] ≠ 0x5B
      · rw [decodeLoop_of_filler inside filler,
          inductionHypothesis _ (by omega) rfl, drop_of_index inside]
        simp only [holds_filler_iff filler]
      · have opening : buffer[i] = 0x5B := not_not.mp filler
        rw [drop_of_index inside, opening]
        by_cases closing : 0x5D ∈ buffer.drop (i + 1)
        · obtain ⟨group, rest, left, closed⟩ := List.eq_append_cons_of_mem closing
          rw [decodeLoop_of_closed inside opening closed left, left]
          cases decoded : Str.fromUtf8? group with
          | none =>
            have malformed : ∀ texts, ¬ Holds (0x5B :: (group ++ 0x5D :: rest)) texts :=
              fun _ => not_holds_of_malformed closed decoded
            simp [malformed]
          | some text =>
            obtain rfl := Str.fromUtf8?_eq_some.mp decoded
            have onward : buffer.drop (i + 1 + text.bytes.length) = 0x5D :: rest := by
              rw [← List.drop_drop, left, List.drop_left]
            rw [Outcome.ofOption_some, Outcome.ok_bind, inductionHypothesis _ (by omega) rfl,
              onward]
            simp only [holds_filler_iff (show (0x5D : UInt8) ≠ 0x5B by decide),
              holds_text_iff closed]
            constructor
            · rintro ⟨others, grouped, rfl⟩
              exact ⟨text :: others, ⟨others, rfl, grouped⟩, by simp⟩
            · rintro ⟨_, ⟨others, rfl, grouped⟩, rfl⟩
              exact ⟨others, grouped, by simp⟩
        · rw [decodeLoop_of_unclosed inside opening closing]
          simp [Holds, Grouped.not_of_unclosed closing]
    · rw [decodeLoop_of_end inside, List.drop_eq_nil_of_le (by omega)]
      simp only [Holds, Grouped.nil_iff, List.map_eq_nil_iff, Outcome.ok.injEq, exists_eq_left,
        List.append_nil]
      exact eq_comm

theorem decodeLoop_ne_err {error : ε} :
    (decodeLoop buffer i placeholder : Outcome ε (List Str)) ≠ .err error := by
  fun_induction decodeLoop buffer i placeholder with
  | case1 i placeholder inside filler inductionHypothesis => exact inductionHypothesis
  | case2 i placeholder inside opening start found inductionHypothesis =>
    cases cut : (SegmentRead.slice buffer start found.2 : Outcome ε Bytes) with
    | ok encStr =>
      cases decoded : Str.fromUtf8? encStr with
      | none => simp [decoded]
      | some encdStr => simpa [decoded] using inductionHypothesis encdStr
    | err error =>
      simp only [SegmentRead.slice] at cut
      split at cut <;> cases cut
    | panic => simp
  | case3 i placeholder outside => nofun

end OuterLoop

theorem decode_eq_ok_iff {data : AuthData} : (decode buffer : Outcome ε AuthData) = .ok data ↔
    ∃ u p, InGrammar buffer u p ∧ data = new u p := by
  rw [decode, Outcome.bind_eq_ok]
  constructor
  · rintro ⟨texts, decoded, result⟩
    obtain ⟨found, grouped, rfl⟩ := decodeLoop_eq_ok_iff.mp decoded
    split at result
    next _ u p =>
      cases result
      exact ⟨u, p, holds_pair_iff.mp grouped, rfl⟩
    next => cases result
  · rintro ⟨u, p, grammar, rfl⟩
    exact ⟨[u, p], decodeLoop_eq_ok_iff.mpr ⟨[u, p], holds_pair_iff.mpr grammar, rfl⟩, rfl⟩

theorem decode_ne_err {error : ε} : (decode buffer : Outcome ε AuthData) ≠ .err error := by
  rw [decode]
  cases decoded : (decodeLoop buffer 0 [] : Outcome ε (List Str)) with
  | ok texts =>
    rw [Outcome.ok_bind]
    split <;> nofun
  | err error => exact absurd decoded decodeLoop_ne_err
  | panic => nofun

/-- `decode` takes a buffer apart when it is two texts in brackets with filler around them,
and aborts on every other. -/
theorem decode_accepts_grammar (b : Bytes) :
    (∀ data : AuthData, (decode b : Outcome ε AuthData) = .ok data ↔
      ∃ u p, InGrammar b u p ∧ data = ⟨u, .plain p⟩) ∧
    ((decode b : Outcome ε AuthData) = .panic ↔ ¬ ∃ u p, InGrammar b u p) := by
  refine ⟨fun data => decode_eq_ok_iff, ?_⟩
  constructor
  · rintro aborts ⟨u, p, grammar⟩
    have decoded : (decode b : Outcome ε AuthData) = .ok (new u p) :=
      decode_eq_ok_iff.mpr ⟨u, p, grammar, rfl⟩
    rw [aborts] at decoded
    cases decoded
  · intro outside
    cases result : (decode b : Outcome ε AuthData) with
    | ok data =>
      obtain ⟨u, p, grammar, -⟩ := decode_eq_ok_iff.mp result
      exact absurd ⟨u, p, grammar⟩ outside
    | err error => exact absurd result decode_ne_err
    | panic => rfl

end Sipusu.AuthData
