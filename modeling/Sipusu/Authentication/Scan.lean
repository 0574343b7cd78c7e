import Sipusu.Authentication.Record

/-!
# The search of the credential file

`Authenticator::get` reads a window of four segments, but moves on by one octet more
than a segment, and takes the last window apart as if it were full. So it looks for the
username at the octets `312 * k + 311 * i` of the file. The search ends without an abort
exactly when none of these looks aborts.
-/

namespace Sipusu

open Sipusu.Foundation

namespace Authenticator

open SegmentRead (Full ColumnsFull Differs Matches Passes len_ne_zero passwordAt algAt saltAt)

theorem bufferCap_eq : bufferCap = 1244 := rfl

/-- How far the window moves in a turn. -/
def stride : Nat := segmentSize + 1

theorem stride_eq : stride = 312 := rfl

/-- The last turn on a file of a length: the first whose window is not full. -/
def lastTurn (length : Nat) : Nat := (length - (bufferCap - stride)) / stride

section Window

variable {storage : Bytes} {seekIdx : Nat}

theorem full_readBuf {start cap : Nat} (inside : start + cap ≤ bufferCap) (positive : 0 < cap) :
    Full (readBuf storage seekIdx) start cap ↔ Full storage (seekIdx + start) cap := by
  rw [Full, Full, readBuf, le_length_window storage inside (by omega),
    take_drop_window storage (by omega), Nat.add_assoc]

theorem columnsFull_readBuf {i : Nat} (segment : i < segreadWide) :
    ColumnsFull (readBuf storage seekIdx) (i * segmentSize) ↔
      ColumnsFull storage (seekIdx + i * segmentSize) := by
  have cap := bufferCap_eq
  simp only [segreadWide] at segment
  simp only [ColumnsFull, passwordAt, algAt, saltAt, usernameCap, passwordCap, algCap, saltCap,
    segmentSize]
  rw [full_readBuf (by omega) (by omega), full_readBuf (by omega) (by omega),
    full_readBuf (by omega) (by omega)]
  simp only [← Nat.add_assoc]

/-- In the window a segment looks as it does in the file. -/
theorem passes_readBuf {username : Str} (short : username.len ≤ usernameCap) {i : Nat}
    (segment : i < segreadWide) :
    Passes (readBuf storage seekIdx) (i * segmentSize) username ↔
      Passes storage (seekIdx + i * segmentSize) username := by
  have inside : i * segmentSize + username.len ≤ bufferCap := by
    have cap := bufferCap_eq
    simp only [segreadWide, segmentSize, usernameCap] at *
    omega
  have matching : Matches (readBuf storage seekIdx) (i * segmentSize) username ↔
      Matches storage (seekIdx + i * segmentSize) username := by
    rw [Matches, Matches, readBuf, take_drop_window storage inside]
  have differing : Differs (readBuf storage seekIdx) (i * segmentSize) username ↔
      Differs storage (seekIdx + i * segmentSize) username := by
    rw [Differs, Differs, matching]
    refine and_congr_left fun different => ?_
    have nonempty := len_ne_zero different
    rw [readBuf, le_length_window storage inside (by omega), Nat.add_assoc]
  rw [Passes, Passes, differing, matching, columnsFull_readBuf segment]

/-- One turn over the listed segments of a buffer. -/
theorem evaluateSegments_eq {buffer : Bytes} {username : Str}
    (short : username.len ≤ usernameCap) (indices : List Nat) :
    evaluateSegments buffer username indices =
      if ∀ i ∈ indices, Passes buffer (i * segmentSize) username then .ok none else .panic := by
  induction indices with
  | nil => simp [evaluateSegments]
  | cons i rest inductionHypothesis =>
    rw [evaluateSegments, SegmentRead.evaluate_eq short]
    by_cases here : Passes buffer (i * segmentSize) username
    · rw [if_pos here, Outcome.ok_bind]
      dsimp only
      rw [inductionHypothesis]
      refine if_congr ?_ rfl rfl
      rw [List.forall_mem_cons, and_iff_right here]
    · rw [if_neg here, if_neg fun all => here (all i List.mem_cons_self)]
      rfl

end Window

/-- None of the looks of one turn aborts. -/
def TurnPasses (storage : Bytes) (username : Str) (seekIdx : Nat) : Prop :=
  ∀ i < segreadWide, Passes storage (seekIdx + i * segmentSize) username

instance (storage : Bytes) (username : Str) (seekIdx : Nat) :
    Decidable (TurnPasses storage username seekIdx) :=
  inferInstanceAs (Decidable (∀ i < segreadWide, _))

/-- One turn of `get` inside the file. -/
theorem getLoop_turn {storage : Bytes} {username : Str} (short : username.len ≤ usernameCap)
    {seekIdx : Nat} (inside : seekIdx < storage.length) :
    getLoop storage username seekIdx =
      if TurnPasses storage username seekIdx then
        if storage.length < seekIdx + bufferCap then .err notFound
        else getLoop storage username (seekIdx + stride)
      else .panic := by
  have cap := bufferCap_eq
  have length : (readBuf storage seekIdx).length = min bufferCap (storage.length - seekIdx) := by
    rw [readBuf, List.length_take, List.length_drop]
  have nonempty : (readBuf storage seekIdx).length ≠ 0 := by omega
  have partly : (readBuf storage seekIdx).length < bufferCap ↔
      storage.length < seekIdx + bufferCap := by omega
  have passes : (∀ i ∈ List.range segreadWide,
      Passes (readBuf storage seekIdx) (i * segmentSize) username) ↔
        TurnPasses storage username seekIdx := by
    simp only [List.mem_range, TurnPasses]
    exact forall₂_congr fun i segment => passes_readBuf short segment
  rw [getLoop, if_neg nonempty, evaluateSegments_eq short]
  by_cases pass : TurnPasses storage username seekIdx
  · rw [if_pos (passes.mpr pass), if_pos pass, Outcome.ok_bind]
    by_cases ending : storage.length < seekIdx + bufferCap
    · rw [if_pos ending]
      exact dif_pos (partly.mpr ending)
    · rw [if_neg ending]
      exact dif_neg (partly.not.mpr ending)
  · rw [if_neg (passes.not.mpr pass), if_neg pass]
    rfl

/-- None of the looks of the turns from a place on aborts. -/
def ScanPasses (storage : Bytes) (username : Str) (seekIdx : Nat) : Prop :=
  ∀ k ≤ lastTurn (storage.length - seekIdx), TurnPasses storage username (seekIdx + k * stride)

instance (storage : Bytes) (username : Str) (seekIdx : Nat) :
    Decidable (ScanPasses storage username seekIdx) :=
  inferInstanceAs (Decidable (∀ k ≤ lastTurn _, _))

/-- The turn on the last window is the only one left. -/
theorem scanPasses_last {storage : Bytes} {username : Str} {seekIdx : Nat}
    (ending : storage.length < seekIdx + bufferCap) :
    ScanPasses storage username seekIdx ↔ TurnPasses storage username seekIdx := by
  have last : lastTurn (storage.length - seekIdx) = 0 := by
    simp only [lastTurn, stride_eq, bufferCap_eq] at ending ⊢
    omega
  simp only [ScanPasses, last, Nat.le_zero, forall_eq, Nat.zero_mul, Nat.add_zero]

/-- A full window leaves a turn less to the place behind it. -/
theorem scanPasses_step {storage : Bytes} {username : Str} {seekIdx : Nat}
    (full : seekIdx + bufferCap ≤ storage.length) :
    ScanPasses storage username seekIdx ↔
      TurnPasses storage username seekIdx ∧ ScanPasses storage username (seekIdx + stride) := by
  have last : lastTurn (storage.length - seekIdx) =
      lastTurn (storage.length - (seekIdx + stride)) + 1 := by
    simp only [lastTurn, stride_eq, bufferCap_eq] at full ⊢
    omega
  have moved : ∀ k, seekIdx + (k + 1) * stride = seekIdx + stride + k * stride := fun k => by
    rw [Nat.succ_mul]
    omega
  rw [ScanPasses, last]
  constructor
  · intro all
    refine ⟨?_, fun k bound => ?_⟩
    · have first := all 0 (Nat.zero_le _)
      rwa [Nat.zero_mul, Nat.add_zero] at first
    · have later := all (k + 1) (Nat.succ_le_succ bound)
      rwa [moved] at later
  · rintro ⟨first, later⟩ k bound
    cases k with
    | zero => rwa [Nat.zero_mul, Nat.add_zero]
    | succ k =>
      rw [moved]
      exact later k (Nat.le_of_succ_le_succ bound)

/-- From inside the file the search comes to its end or aborts. -/
theorem getLoop_eq {storage : Bytes} {username : Str} (short : username.len ≤ usernameCap)
    {seekIdx : Nat} (inside : seekIdx < storage.length) :
    getLoop storage username seekIdx =
      if ScanPasses storage username seekIdx then .err notFound else .panic := by
  induction left : storage.length - seekIdx using Nat.strongRecOn generalizing seekIdx with
  | ind n inductionHypothesis =>
    rw [getLoop_turn short inside]
    by_cases ending : storage.length < seekIdx + bufferCap
    · rw [if_pos ending]
      exact if_congr (scanPasses_last ending).symm rfl rfl
    · have full := Nat.le_of_not_lt ending
      have cap := bufferCap_eq
      have wide := stride_eq
      have further : seekIdx + stride < storage.length := by omega
      have next := inductionHypothesis (storage.length - (seekIdx + stride)) (by omega) further rfl
      rw [if_neg ending, next]
      by_cases turn : TurnPasses storage username seekIdx
      · rw [if_pos turn]
        refine if_congr ?_ rfl rfl
        rw [scanPasses_step full, and_iff_right turn]
      · rw [if_neg turn, if_neg fun all => turn ((scanPasses_step full).mp all).1]

/-- `get` finds nothing, whatever the file holds: it reports so or aborts. -/
theorem get_eq {storage : Bytes} {username : Str} (short : username.len ≤ usernameCap) :
    get storage username =
      if storage = [] ∨ ScanPasses storage username 0 then .err notFound else .panic := by
  cases storage with
  | nil =>
    rw [if_pos (.inl rfl), get, getLoop]
    rfl
  | cons byte rest =>
    rw [get, getLoop_eq short (Nat.zero_lt_succ _)]
    exact if_congr (by simp) rfl rfl

/-- A look behind the end of the file aborts. -/
theorem lt_of_passes {storage : Bytes} {pos : Nat} {username : Str}
    (passes : Passes storage pos username) : pos < storage.length := by
  rcases passes with ⟨room, different⟩ | ⟨_, ⟨room, _⟩, _⟩
  · have nonempty := len_ne_zero different
    omega
  · simp only [passwordAt, usernameCap, passwordCap] at room
    omega

end Authenticator

/-- A segment of the file, written by `AuthData::read`. -/
structure StoredRecord where
  octets : Bytes
  data : AuthData
  count : Nat
  written : data.read [] = (.ok (count, octets) : Outcome IoError (Nat × Bytes))
  size : octets.length = segmentSize

namespace Authenticator

open SegmentRead (Passes)

/-- A file of records. -/
def storageOf (records : List StoredRecord) : Bytes := records.flatMap StoredRecord.octets

/-- What `evaluate` answers for a record, at its own offset in the whole file. -/
def recordAnswer (storage : Bytes) (username : Str) (i : Nat) : Option PasswordHashed :=
  match ((SegmentRead.new (i * segmentSize) storage).evaluate username :
    Outcome IoError (Option PasswordHashed)) with
  | .ok answer => answer
  | _ => none

/-- What a search through all records comes to: the first answer there is. -/
def firstAnswer (records : List StoredRecord) (username : Str) : Outcome IoError PasswordHashed :=
  match (List.range records.length).findSome? (recordAnswer (storageOf records) username) with
  | some res => .ok res
  | none => .err notFound

theorem firstAnswer_eq (records : List StoredRecord) {username : Str}
    (short : username.len ≤ usernameCap) : firstAnswer records username = .err notFound := by
  have missing : ∀ i, recordAnswer (storageOf records) username i = none := by
    intro i
    rw [recordAnswer, SegmentRead.evaluate_eq short]
    split
    case h_1 answer found =>
      split at found <;> cases found
      rfl
    case h_2 => rfl
  have none : (List.range records.length).findSome? (recordAnswer (storageOf records) username) =
      none := List.findSome?_eq_none_iff.mpr fun i _ => missing i
  rw [firstAnswer, none]

theorem length_storageOf (records : List StoredRecord) :
    (storageOf records).length = records.length * segmentSize := by
  induction records with
  | nil => rfl
  | cons first rest inductionHypothesis =>
    rw [storageOf, List.flatMap_cons, List.length_append, first.size, ← storageOf,
      inductionHypothesis, List.length_cons, Nat.succ_mul, Nat.add_comm]

/-- On a file of one to four records the fourth look of the last turn is behind the end. -/
theorem get_few {records : List StoredRecord} {username : Str}
    (short : username.len ≤ usernameCap) (nonempty : records ≠ []) (few : records.length ≤ 4) :
    get (storageOf records) username = .panic := by
  have length := length_storageOf records
  have positive : 0 < records.length := List.length_pos_iff.mpr nonempty
  rw [get_eq short, if_neg]
  rintro (empty | all)
  · rw [empty, List.length_nil, segmentSize] at length
    omega
  · have behind := lt_of_passes (all _ (Nat.le_refl _) 3 (by decide))
    simp only [lastTurn, stride_eq, segmentSize, bufferCap_eq] at behind length
    obtain one | two | three | four : records.length = 1 ∨ records.length = 2 ∨
        records.length = 3 ∨ records.length = 4 := by omega
    all_goals omega

/-- The search sees every record of an empty file, and else of a file on which each look at
an octet `312 * k + 311 * i` stays inside the file and meets another name, or the name
before three filled columns. -/
theorem scan_sees_records_iff (records : List StoredRecord) {username : Str}
    (short : username.len ≤ usernameCap) :
    get (storageOf records) username = firstAnswer records username ↔
      records = [] ∨ ∀ k ≤ lastTurn (storageOf records).length, ∀ i < segreadWide,
        Passes (storageOf records) (k * stride + i * segmentSize) username := by
  have scan : ScanPasses (storageOf records) username 0 ↔
      ∀ k ≤ lastTurn (storageOf records).length, ∀ i < segreadWide,
        Passes (storageOf records) (k * stride + i * segmentSize) username := by
    simp only [ScanPasses, TurnPasses, Nat.zero_add, Nat.sub_zero]
  have empty : storageOf records = [] ↔ records = [] := by
    rw [← List.length_eq_zero_iff, length_storageOf, Nat.mul_eq_zero, ← List.length_eq_zero_iff]
    exact or_iff_left (by decide)
  rw [firstAnswer_eq records short, get_eq short, ← or_congr empty scan]
  constructor
  · intro found
    split at found
    case isTrue passes => exact passes
    case isFalse => cases found
  · exact fun passes => if_pos passes

/-- The segment of the credential of one-letter texts. -/
def letters : StoredRecord where
  octets := Credential.letters.record
  data := Credential.letters.authData
  count := segmentSize
  written := Credential.letters.read_authData []
  size := Credential.letters.length_record

/-- In a file of five records another letter is found to be missing. -/
theorem scan_sees_records_iff_five :
    (⟨[0x62], by decide⟩ : Str).len ≤ usernameCap ∧
      get (storageOf (List.replicate 5 letters)) ⟨[0x62], by decide⟩ =
        firstAnswer (List.replicate 5 letters) ⟨[0x62], by decide⟩ :=
  ⟨by decide, (scan_sees_records_iff _ (by decide)).mpr (.inr (by decide +kernel))⟩

/-- In a file of one record it is not: the search goes on behind the end. -/
theorem scan_aborts :
    get (storageOf [letters]) ⟨[0x62], by decide⟩ = .panic ∧
      firstAnswer [letters] ⟨[0x62], by decide⟩ = .err notFound ∧
      get (storageOf [letters]) ⟨[0x62], by decide⟩ ≠ firstAnswer [letters] ⟨[0x62], by decide⟩ := by
  have short : (⟨[0x62], by decide⟩ : Str).len ≤ usernameCap := by decide
  rw [get_few short (List.cons_ne_nil _ _) (by decide), firstAnswer_eq [letters] short]
  exact ⟨rfl, rfl, nofun⟩

end Authenticator
end Sipusu
