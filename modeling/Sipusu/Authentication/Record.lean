import Sipusu.Authentication
import Sipusu.Foundation.Columns

/-!
# One segment of the credential file

`evaluate` finds a segment's username, and then `grab` is to read the three columns
behind it. `grab` returns only where it has nothing to return: on a column without a
zero octet before its last place. Elsewhere it copies octets into a vector that has
no room for them.
-/

namespace Sipusu

open Sipusu.Foundation

namespace SegmentRead

variable {ε : Type}

theorem index_of_lt {src : Bytes} {pos : Nat} (inside : pos < src.length) :
    (index src pos : Outcome ε UInt8) = .ok src[pos] := by
  rw [index, List.getElem?_eq_getElem inside]
  rfl

theorem index_of_le {src : Bytes} {pos : Nat} (behind : src.length ≤ pos) :
    (index src pos : Outcome ε UInt8) = .panic := by
  rw [index, List.getElem?_eq_none behind]
  rfl

/-- Octets are collected unless some of them lie behind the end. -/
theorem collect_eq {src : Bytes} {turns j : Nat} :
    (collect src turns j : Outcome ε Bytes) =
      if turns = 0 ∨ j + turns ≤ src.length then .ok ((src.drop j).take turns) else .panic := by
  induction turns generalizing j with
  | zero => rfl
  | succ turns inductionHypothesis =>
    rw [collect]
    by_cases inside : j < src.length
    · rw [index_of_lt inside, inductionHypothesis, List.drop_eq_getElem_cons inside,
        List.take_succ_cons]
      by_cases room : j + (turns + 1) ≤ src.length
      · have later : turns = 0 ∨ j + 1 + turns ≤ src.length := .inr (by omega)
        simp [room, later]
      · have later : ¬ (turns = 0 ∨ j + 1 + turns ≤ src.length) := by omega
        simp [room, later]
    · have room : ¬ (turns + 1 = 0 ∨ j + (turns + 1) ≤ src.length) := by omega
      rw [index_of_le (Nat.le_of_not_lt inside), if_neg room]
      rfl

/-- The loop stops inside its column or reads behind the end. -/
theorem skip_cases (src : Bytes) (turns pos : Nat) :
    (skip src turns pos : Outcome ε Nat) = .panic ∨
      ∃ stop, (skip src turns pos : Outcome ε Nat) = .ok stop ∧ stop ≤ pos + turns := by
  induction turns generalizing pos with
  | zero => exact .inr ⟨pos, rfl, Nat.le_refl _⟩
  | succ turns inductionHypothesis =>
    rw [skip]
    by_cases inside : pos < src.length
    · rw [index_of_lt inside, Outcome.ok_bind]
      split
      · exact .inr ⟨pos + 1, rfl, by omega⟩
      · rcases inductionHypothesis (pos + 1) with aborted | ⟨stop, stopped, bound⟩
        · exact .inl aborted
        · exact .inr ⟨stop, stopped, by omega⟩
    · rw [index_of_le (Nat.le_of_not_lt inside)]
      exact .inl rfl

/-- A column that lies within the octets and shows no zero octet before its last place. -/
def Full (src : Bytes) (start cap : Nat) : Prop :=
  start + cap ≤ src.length ∧ 0x00 ∉ (src.drop start).take (cap - 1)

instance (src : Bytes) (start cap : Nat) : Decidable (Full src start cap) :=
  inferInstanceAs (Decidable (_ ∧ _))

/-- The loop runs to its last turn exactly on a full column. -/
theorem skip_eq_last {src : Bytes} {turns pos : Nat} :
    (skip src (turns + 1) pos : Outcome ε Nat) = .ok (pos + (turns + 1)) ↔
      Full src pos (turns + 1) := by
  induction turns generalizing pos with
  | zero =>
    by_cases inside : pos < src.length
    · simp [skip, index_of_lt inside, Full, Nat.succ_le_of_lt inside]
    · have short : ¬ pos + 1 ≤ src.length := by omega
      simp [skip, index_of_le (Nat.le_of_not_lt inside), Full, short]
  | succ turns inductionHypothesis =>
    rw [skip]
    by_cases inside : pos < src.length
    · have next : (skip src (turns + 1) (pos + 1) : Outcome ε Nat) = .ok (pos + 1 + (turns + 1)) ↔
          Full src (pos + 1) (turns + 1) := inductionHypothesis
      rw [index_of_lt inside, Outcome.ok_bind]
      by_cases zero : src[pos] = 0x00
      · rw [if_pos zero]
        have shown : 0x00 ∈ (src.drop pos).take (turns + 1) := by
          rw [List.drop_eq_getElem_cons inside, List.take_succ_cons, zero]
          exact List.mem_cons_self
        simp [Full, shown]
      · rw [if_neg zero]
        have moved : pos + (turns + 1 + 1) = pos + 1 + (turns + 1) := by omega
        have shown : 0x00 ∈ (src.drop pos).take (turns + 1) ↔
            0x00 ∈ (src.drop (pos + 1)).take turns := by
          rw [List.drop_eq_getElem_cons inside, List.take_succ_cons, List.mem_cons]
          exact or_iff_right (Ne.symm zero)
        rw [moved, next, Full, Full, ← moved]
        simp only [Nat.add_sub_cancel, shown]
    · have short : ¬ pos + (turns + 1 + 1) ≤ src.length := by omega
      simp [index_of_le (Nat.le_of_not_lt inside), Full, short]

/-- `grab` returns nothing from a full column, and aborts on any other. -/
theorem grab_eq {src : Bytes} {pos cap : Nat} (positive : 0 < cap) :
    ((mk pos src).grab cap : Outcome ε (Bytes × SegmentRead)) =
      if Full src (pos + 1) cap then .ok ([], mk (pos + 1 + cap) src) else .panic := by
  obtain ⟨turns, rfl⟩ : ∃ turns, cap = turns + 1 := ⟨cap - 1, by omega⟩
  have last : (skip src (turns + 1) (pos + 1) : Outcome ε Nat) = .ok (pos + 1 + (turns + 1)) ↔
      Full src (pos + 1) (turns + 1) := skip_eq_last
  by_cases full : Full src (pos + 1) (turns + 1)
  · rw [if_pos full, grab, last.mpr full]
    simp [slice, full.1, cloneFromSlice]
  · rw [if_neg full, grab]
    rcases skip_cases src (turns + 1) (pos + 1) with aborted | ⟨stop, stopped, bound⟩
    · rw [aborted]
      rfl
    · -- The loop broke off, so at least one octet is left to be copied.
      have early : stop ≠ pos + 1 + (turns + 1) := by
        rintro rfl
        exact full (last.mp stopped)
      rw [stopped]
      by_cases inside : pos + 1 + (turns + 1) ≤ src.length
      · have left : 0 ≠ ((src.drop stop).take (pos + 1 + (turns + 1) - stop)).length := by
          rw [List.length_take, List.length_drop]
          omega
        simp only [slice, bound, inside, and_self, if_true, Outcome.ok_bind, cloneFromSlice,
          List.length_nil, if_neg left]
        rfl
      · simp [slice, inside]

/-- Where the password column of a segment begins, behind the separator. -/
def passwordAt (pos : Nat) : Nat := pos + usernameCap + 1

/-- Where the algorithm column begins. -/
def algAt (pos : Nat) : Nat := passwordAt pos + passwordCap + 1

/-- Where the salt column begins. -/
def saltAt (pos : Nat) : Nat := algAt pos + algCap + 1

/-- The columns behind the username column of a segment are full. -/
def ColumnsFull (src : Bytes) (pos : Nat) : Prop :=
  Full src (passwordAt pos) passwordCap ∧ Full src (algAt pos) algCap ∧
    Full src (saltAt pos) saltCap

instance (src : Bytes) (pos : Nat) : Decidable (ColumnsFull src pos) :=
  inferInstanceAs (Decidable (_ ∧ _ ∧ _))

/-- The octets at a position are the name. -/
def Matches (src : Bytes) (pos : Nat) (target : Str) : Prop :=
  (src.drop pos).take target.len = target.bytes

instance (src : Bytes) (pos : Nat) (target : Str) : Decidable (Matches src pos target) :=
  inferInstanceAs (Decidable (_ = _))

/-- As many octets as the name has are there at a position, and they are not the name. -/
def Differs (src : Bytes) (pos : Nat) (target : Str) : Prop :=
  pos + target.len ≤ src.length ∧ ¬ Matches src pos target

instance (src : Bytes) (pos : Nat) (target : Str) : Decidable (Differs src pos target) :=
  inferInstanceAs (Decidable (_ ∧ _))

/-- The empty name is everywhere. -/
theorem len_ne_zero {src : Bytes} {pos : Nat} {target : Str} (other : ¬ Matches src pos target) :
    target.len ≠ 0 := by
  intro empty
  apply other
  rw [Matches, empty, List.take_zero, List.length_eq_zero_iff.mp empty]

/-- What keeps `evaluate` from aborting at a position. -/
def Passes (src : Bytes) (pos : Nat) (target : Str) : Prop :=
  Differs src pos target ∨ Matches src pos target ∧ ColumnsFull src pos

instance (src : Bytes) (pos : Nat) (target : Str) : Decidable (Passes src pos target) :=
  inferInstanceAs (Decidable (_ ∨ _))

/-- What `evaluate` does behind the username column. -/
theorem grabs_eq {src : Bytes} {pos : Nat} :
    (do
      let (password, segment) ← (SegmentRead.mk (pos + usernameCap) src).grab passwordCap
      let password := (Str.fromUtf8? password).getD .empty
      let (alg, segment) ← segment.grab algCap
      let alg := (Str.fromUtf8? alg).getD .empty
      let (salt, _) ← segment.grab saltCap
      if salt.length = 0 then return none
      return some ⟨password, alg, Str.fromUtf8? salt⟩ :
        Outcome ε (Option PasswordHashed)) =
      if ColumnsFull src pos then .ok none else .panic := by
  by_cases password : Full src (passwordAt pos) passwordCap
  · rw [grab_eq (by decide), ← passwordAt, if_pos password, Outcome.ok_bind]
    by_cases alg : Full src (algAt pos) algCap
    · dsimp only
      rw [grab_eq (by decide), ← algAt, if_pos alg, Outcome.ok_bind]
      by_cases salt : Full src (saltAt pos) saltCap
      · dsimp only
        rw [grab_eq (by decide), ← saltAt, if_pos salt, if_pos ⟨password, alg, salt⟩]
        rfl
      · dsimp only
        rw [grab_eq (by decide), ← saltAt, if_neg salt, if_neg fun full => salt full.2.2]
        rfl
    · dsimp only
      rw [grab_eq (by decide), ← algAt, if_neg alg, if_neg fun full => alg full.2.1]
      rfl
  · rw [grab_eq (by decide), ← passwordAt, if_neg password, if_neg fun full => password full.1]
    rfl

/-- `evaluate` never finds anything: it returns `None` or aborts. -/
theorem evaluate_eq {src : Bytes} {pos : Nat} {target : Str} (short : target.len ≤ usernameCap) :
    ((new pos src).evaluate target : Outcome ε (Option PasswordHashed)) =
      if Passes src pos target then .ok none else .panic := by
  have turns : pos + usernameCap - (usernameCap - target.len) - pos = target.len := by omega
  rw [evaluate, if_neg (Nat.not_lt_of_le short)]
  dsimp only [new]
  rw [turns, collect_eq]
  by_cases same : Matches src pos target
  · have passes : Passes src pos target ↔ ColumnsFull src pos := by
      constructor
      · rintro (differs | passes)
        · exact absurd same differs.2
        · exact passes.2
      · exact fun full => .inr ⟨same, full⟩
    by_cases inside : target.len = 0 ∨ pos + target.len ≤ src.length
    · have found : ¬ (src.drop pos).take target.len ≠ target.bytes := not_not.mpr same
      rw [if_pos inside, Outcome.ok_bind, if_neg found]
      simp only [passes]
      exact grabs_eq
    · have narrow : ¬ ColumnsFull src pos := by
        rintro ⟨⟨room, _⟩, _⟩
        simp only [passwordAt, passwordCap, usernameCap] at room short
        omega
      rw [if_neg inside, if_neg (passes.not.mpr narrow)]
      rfl
  · have nonempty := len_ne_zero same
    by_cases inside : pos + target.len ≤ src.length
    · have other : (src.drop pos).take target.len ≠ target.bytes := same
      rw [if_pos (.inr inside), Outcome.ok_bind, if_pos other, if_pos (.inl ⟨inside, same⟩)]
      rfl
    · have stuck : ¬ Passes src pos target := by
        rintro (differs | passes)
        · exact inside differs.1
        · exact same passes.1
      rw [if_neg (by omega), if_neg stuck]
      rfl

end SegmentRead

/-- A text for a column: it has octets, none of them is the filler, and they fit. -/
structure Entry (cap : Nat) where
  text : Str
  nonempty : text.bytes ≠ []
  free : 0x00 ∉ text.bytes
  fits : text.len ≤ cap

namespace Entry

variable {cap : Nat}

/-- The column of an entry. -/
def column (entry : Entry cap) : Bytes := Foundation.column cap 0x00 entry.text.bytes

@[simp] theorem length_column (entry : Entry cap) : entry.column.length = cap :=
  Foundation.length_column entry.fits

/-- An entry fills its column if it leaves at most one place free. -/
def Fills (entry : Entry cap) : Prop := cap ≤ entry.text.len + 1

instance (entry : Entry cap) : Decidable entry.Fills := inferInstanceAs (Decidable (_ ≤ _))

/-- `grab` returns on the column of an entry that fills it. -/
theorem full_iff (entry : Entry cap) {start : Nat} {front back : Bytes}
    (place : front.length = start) :
    SegmentRead.Full (front ++ entry.column ++ back) start cap ↔ entry.Fills := by
  have size : cap - 1 ≤ entry.column.length := by
    rw [length_column]
    exact Nat.sub_le cap 1
  have room : start + cap ≤ (front ++ entry.column ++ back).length := by
    simp only [List.length_append, length_column, place]
    exact Nat.le_add_right _ _
  rw [SegmentRead.Full, take_drop_append place size, column, filler_mem_take_column entry.free,
    ← column, Fills, Str.len]
  simp only [room, true_and, Nat.not_lt]

end Entry

/-- What a credential file is made for: a username and what is kept of a password. -/
structure Credential where
  username : Entry usernameCap
  password : Entry passwordCap
  alg : Entry algCap
  salt : Entry saltCap

namespace Credential

/-- The password of a credential as `evaluate` is to return it. -/
def hashed (credential : Credential) : PasswordHashed :=
  ⟨credential.password.text, credential.alg.text, some credential.salt.text⟩

/-- A credential as `create` stores it. -/
def authData (credential : Credential) : AuthData :=
  ⟨credential.username.text, .hashed credential.hashed⟩

/-- The columns behind the username. -/
def columns (credential : Credential) : Bytes :=
  credential.password.column ++ 0x1F :: (credential.alg.column ++ 0x1F ::
    (credential.salt.column ++ [0x1F, 0x0A]))

/-- The record of a credential. -/
def record (credential : Credential) : Bytes :=
  credential.username.column ++ 0x1F :: credential.columns

/-- Every entry behind the username fills its column. -/
def Fills (credential : Credential) : Prop :=
  credential.password.Fills ∧ credential.alg.Fills ∧ credential.salt.Fills

instance (credential : Credential) : Decidable credential.Fills :=
  inferInstanceAs (Decidable (_ ∧ _ ∧ _))

end Credential

theorem AuthData.parts_eq (v : Str) (cap counter : Nat) (buffer : Bytes) :
    parts v cap counter buffer = (counter + (cap + 1), buffer ++ column cap 0x00 v.bytes ++ [0x1F]) := by
  rw [parts, column]
  by_cases short : v.len < cap
  · rw [if_pos short, List.append_assoc buffer, Str.len]
  · have none : cap - v.bytes.length = 0 := Nat.sub_eq_zero_of_le (Nat.le_of_not_lt short)
    rw [if_neg short, none, List.replicate_zero, List.append_nil]

namespace Credential

theorem length_record (credential : Credential) : credential.record.length = segmentSize := by
  simp only [record, columns, List.length_append, List.length_cons, List.length_nil,
    Entry.length_column]
  rfl

/-- `read` writes the record behind what the buffer holds. -/
theorem read_authData {ε : Type} (credential : Credential) (buffer : Bytes) :
    (credential.authData.read buffer : Outcome ε (Nat × Bytes)) =
      .ok (segmentSize, buffer ++ credential.record) := by
  simp only [AuthData.read, AuthData.parts_eq, authData, hashed, record, columns, Entry.column,
    Option.getD_some, List.append_assoc, List.cons_append, List.nil_append]
  rfl

section Surrounded

variable (credential : Credential) (front back : Bytes)

/-- The octets of the file around a record. -/
def within : Bytes := front ++ credential.record ++ back

theorem matches_iff {target : Str} (short : target.len ≤ usernameCap) :
    SegmentRead.Matches (credential.within front back) front.length target ↔
      target.bytes <+: credential.username.column := by
  have split : credential.within front back =
      front ++ credential.username.column ++ (0x1F :: credential.columns ++ back) := by
    simp only [within, record, List.append_assoc]
  rw [SegmentRead.Matches, split, take_drop_append rfl (by rwa [Entry.length_column]),
    List.prefix_iff_eq_take, eq_comm, Str.len]

theorem differs_iff {target : Str} (short : target.len ≤ usernameCap) :
    SegmentRead.Differs (credential.within front back) front.length target ↔
      ¬ target.bytes <+: credential.username.column := by
  have room : front.length + target.len ≤ (credential.within front back).length := by
    simp only [within, List.length_append, length_record, segmentSize]
    simp only [usernameCap] at short
    omega
  rw [← matches_iff credential front back short]
  exact and_iff_right room

theorem columnsFull_iff :
    SegmentRead.ColumnsFull (credential.within front back) front.length ↔ credential.Fills := by
  have password : credential.within front back =
      (front ++ credential.username.column ++ [0x1F]) ++ credential.password.column ++
        (0x1F :: credential.alg.column ++ 0x1F :: credential.salt.column ++
          [0x1F, 0x0A] ++ back) := by
    simp only [within, record, columns, List.append_assoc, List.cons_append, List.nil_append]
  have alg : credential.within front back =
      (front ++ credential.username.column ++ 0x1F :: credential.password.column ++ [0x1F]) ++
        credential.alg.column ++
          (0x1F :: credential.salt.column ++ [0x1F, 0x0A] ++ back) := by
    simp only [within, record, columns, List.append_assoc, List.cons_append, List.nil_append]
  have salt : credential.within front back =
      (front ++ credential.username.column ++ 0x1F :: credential.password.column ++
        0x1F :: credential.alg.column ++ [0x1F]) ++ credential.salt.column ++
          ([0x1F, 0x0A] ++ back) := by
    simp only [within, record, columns, List.append_assoc, List.cons_append, List.nil_append]
  refine and_congr ?_ (and_congr ?_ ?_)
  · rw [password]
    refine credential.password.full_iff ?_
    simp only [List.length_append, List.length_singleton, Entry.length_column,
      SegmentRead.passwordAt]
  · rw [alg]
    refine credential.alg.full_iff ?_
    simp only [List.length_append, List.length_cons, List.length_nil, Entry.length_column,
      SegmentRead.algAt, SegmentRead.passwordAt]
    omega
  · rw [salt]
    refine credential.salt.full_iff ?_
    simp only [List.length_append, List.length_cons, List.length_nil, Entry.length_column,
      SegmentRead.saltAt, SegmentRead.algAt, SegmentRead.passwordAt]
    omega

/-- `evaluate` on a record, wherever it lies: a name that is not found is passed over, and
one that is found is passed over too, or aborts. -/
theorem evaluate_within {ε : Type} {target : Str} (short : target.len ≤ usernameCap) :
    ((SegmentRead.new front.length (credential.within front back)).evaluate target :
        Outcome ε (Option PasswordHashed)) =
      if ¬ target.bytes <+: credential.username.column ∨ credential.Fills then .ok none
      else .panic := by
  have passes : SegmentRead.Passes (credential.within front back) front.length target ↔
      ¬ target.bytes <+: credential.username.column ∨ credential.Fills := by
    rw [SegmentRead.Passes, differs_iff credential front back short,
      matches_iff credential front back short, columnsFull_iff]
    tauto
  rw [SegmentRead.evaluate_eq short]
  exact if_congr passes rfl rfl

end Surrounded

/-- The record law: `read` writes one segment, and `evaluate` finds in it the stored
username and no other. -/
def Recovered (credential : Credential) (front back : Bytes) (target : Str) : Prop :=
  ∃ record, record.length = segmentSize ∧
    (∀ buffer, (credential.authData.read buffer : Outcome IoError (Nat × Bytes)) =
      .ok (segmentSize, buffer ++ record)) ∧
    ((SegmentRead.new front.length (front ++ record ++ back)).evaluate target :
        Outcome IoError (Option PasswordHashed)) =
      .ok (if target = credential.username.text then some credential.hashed else none)

/-- The record law only asks what `evaluate` makes of the record. -/
theorem recovered_iff_evaluate {credential : Credential} {front back : Bytes} {target : Str} :
    credential.Recovered front back target ↔
      ((SegmentRead.new front.length (credential.within front back)).evaluate target :
          Outcome IoError (Option PasswordHashed)) =
        .ok (if target = credential.username.text then some credential.hashed else none) := by
  constructor
  · rintro ⟨record, _, written, evaluated⟩
    have same : record = credential.record := by
      have wrote := (written []).symm.trans (credential.read_authData [])
      simpa using wrote
    rw [same] at evaluated
    exact evaluated
  · exact fun evaluated =>
      ⟨credential.record, credential.length_record, credential.read_authData, evaluated⟩

/-- The record law holds of a name that the padded username column does not begin with,
and of another name than the stored one where the other three columns are filled. It never
holds of the stored name. -/
theorem record_law_iff (credential : Credential) (front back : Bytes) {target : Str}
    (short : target.len ≤ usernameCap) :
    credential.Recovered front back target ↔
      ¬ target.bytes <+: column usernameCap 0x00 credential.username.text.bytes ∨
        target ≠ credential.username.text ∧ passwordCap ≤ credential.password.text.len + 1 ∧
          algCap ≤ credential.alg.text.len + 1 ∧ saltCap ≤ credential.salt.text.len + 1 := by
  rw [recovered_iff_evaluate, evaluate_within credential front back short]
  by_cases own : target = credential.username.text
  · -- The stored name is found, and what is found is never returned.
    have found : target.bytes <+: credential.username.column := by
      rw [own]
      exact prefix_column _ _ _
    constructor
    · intro returned
      rw [if_pos own] at returned
      split at returned <;> cases returned
    · rintro (missing | ⟨other, _⟩)
      · exact absurd found missing
      · exact absurd own other
  · rw [if_neg own]
    constructor
    · intro returned
      split at returned
      case isTrue passes => exact passes.imp id fun fills => ⟨own, fills⟩
      case isFalse => cases returned
    · rintro (missing | ⟨_, fills⟩)
      · exact if_pos (.inl missing)
      · exact if_pos (.inr fills)

/-- The credential of one-letter texts. -/
def letters : Credential where
  username := ⟨⟨[0x61], by decide⟩, by decide, by decide, by decide⟩
  password := ⟨⟨[0x70], by decide⟩, by decide, by decide, by decide⟩
  alg := ⟨⟨[0x68], by decide⟩, by decide, by decide, by decide⟩
  salt := ⟨⟨[0x73], by decide⟩, by decide, by decide, by decide⟩

/-- Another letter is passed over. -/
theorem record_law_iff_other :
    (⟨[0x62], by decide⟩ : Str).len ≤ usernameCap ∧
      letters.Recovered [] [] ⟨[0x62], by decide⟩ :=
  ⟨by decide, (record_law_iff letters [] [] (by decide)).mpr (.inl (by decide))⟩

/-- Looking up its own username aborts on the password column. -/
theorem record_lost :
    ((SegmentRead.new 0 letters.record).evaluate letters.username.text :
        Outcome IoError (Option PasswordHashed)) = .panic ∧
      ¬ letters.Recovered [] [] letters.username.text := by
  have around : letters.within [] [] = letters.record := List.append_nil _
  have short : letters.username.text.len ≤ usernameCap := by decide
  have found : ¬ (¬ letters.username.text.bytes <+: letters.username.column ∨ letters.Fills) := by
    decide
  have aborted : ((SegmentRead.new 0 letters.record).evaluate letters.username.text :
      Outcome IoError (Option PasswordHashed)) = .panic := by
    rw [← around]
    exact (evaluate_within letters [] [] short).trans (if_neg found)
  refine ⟨aborted, fun recovered => ?_⟩
  rw [recovered_iff_evaluate, around, List.length_nil] at recovered
  exact nomatch aborted.symm.trans recovered

end Credential
end Sipusu
