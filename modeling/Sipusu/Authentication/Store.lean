import Sipusu.Authentication.Scan
import Sipusu.Foundation.Runs
import Sipusu.Foundation.Text

/-!
# The credential store

`Authenticator` as a store: `create` appends a record to the file, and `authenticate`
searches the file and compares. The functions of the `argon2` crate are a parameter. One
`write` may put only a front of the record into the file, and nothing takes it back.
-/

namespace Sipusu

open Sipusu.Foundation

/-- The functions of the `argon2` crate that are called, at its default configuration. -/
structure Argon2 where
  hashEncoded : Bytes → Bytes → Option Str
  verifyEncoded : Str → Bytes → Option Bool

namespace PasswordHashed

/-- The salt of every password. -/
def salt78 : Str := ⟨Text.ascii "random78", by decide⟩

/-- The name of the algorithm. -/
def algName : Str := ⟨Text.ascii "argon2", by decide⟩

/-- `PasswordHashed::new`. -/
def new {ε : Type} (argon2 : Argon2) (pwd : Bytes) : Outcome ε PasswordHashed := do
  let password ← Outcome.ofOption (argon2.hashEncoded pwd salt78.bytes)
  return { password, alg := algName, salt := some salt78 }

end PasswordHashed

namespace AuthData

variable {ε : Type}

/-- `AuthData::hash_password`. -/
def hashPassword (argon2 : Argon2) (data : AuthData) : Outcome ε AuthData :=
  match data.password with
  | .plain s => do
      let hashed ← PasswordHashed.new argon2 s.bytes
      return { data with password := .hashed hashed }
  | .hashed _ => .ok data

end AuthData

namespace Authenticator

/-- `Authenticator::prepare_storage`: the content of the file, which is created where there
is none. -/
def prepareStorage (file : Option Bytes) : Bytes := file.getD []

/-- What the system makes of one `write`: the octets that get into the file, and an error of
one of the calls. -/
structure Written where
  count : Nat
  failure : Option IoError

/-- `Authenticator::write`: the count it returns, and the file. -/
def write (storage buffer : Bytes) (written : Written) : Except IoError Nat × Bytes :=
  let taken := buffer.take written.count
  (match written.failure with
    | none => .ok taken.length
    | some error => .error error, storage ++ taken)

/-- The record that `create` writes. -/
def recordOf (argon2 : Argon2) (auth : AuthData) : Outcome IoError Bytes := do
  let dataCreate ← auth.hashPassword argon2
  let (_, buffer) ← dataCreate.read []
  return buffer

/-- `Authenticator::create`: its answer, and the file. -/
def create (argon2 : Argon2) (storage : Bytes) (auth : AuthData) (written : Written) :
    Outcome IoError Bool × Bytes :=
  match recordOf argon2 auth with
  | .ok buffer =>
      match write storage buffer written with
      | (.error _, storage) => (.ok false, storage)
      | (.ok v, storage) => (.ok (0 < v), storage)
  | .err error => (.err error, storage)
  | .panic => (.panic, storage)

/-- `Authenticator::authenticate`. -/
def authenticate (argon2 : Argon2) (storage : Bytes) (auth : AuthData) : Outcome IoError Bool :=
  match get storage auth.username with
  | .panic => .panic
  | .err _ => .ok false
  | .ok resultPwd =>
      match auth.password with
      | .hashed h => .ok (resultPwd.password = h.password)
      | .plain s => .ok ((argon2.verifyEncoded resultPwd.password s.bytes).getD false)

/-- What is done with a store. -/
inductive StoreCall where
  | create (auth : AuthData) (written : Written)
  | authenticate (auth : AuthData)
  /-- `Authenticator::new` on the same path. -/
  | reopen

/-- The file after a call. -/
def after (argon2 : Argon2) (storage : Bytes) : StoreCall → Bytes
  | .create auth written => (create argon2 storage auth written).2
  | .authenticate _ => storage
  | .reopen => prepareStorage (some storage)

/-- All histories of a store whose file is created. -/
def store (argon2 : Argon2) : System Bytes StoreCall :=
  .ofStep (prepareStorage none) fun storage call => some (after argon2 storage call)

/-- The octets that a call appends to the file. -/
def appended (argon2 : Argon2) : StoreCall → Bytes
  | .create auth written =>
      match recordOf argon2 auth with
      | .ok buffer => buffer.take written.count
      | _ => []
  | _ => []

theorem after_eq (argon2 : Argon2) (storage : Bytes) (call : StoreCall) :
    after argon2 storage call = storage ++ appended argon2 call := by
  cases call with
  | create auth written =>
    rw [after, create, appended]
    cases recordOf argon2 auth with
    | ok buffer =>
      obtain ⟨count, failure⟩ := written
      cases failure <;> rfl
    | err error => exact (List.append_nil _).symm
    | panic => exact (List.append_nil _).symm
  | authenticate auth => exact (List.append_nil _).symm
  | reopen => exact (List.append_nil _).symm

/-- The file is what was appended to it. -/
theorem file_of_run {argon2 : Argon2} {trail : List (Bytes × StoreCall)} {storage : Bytes}
    (run : (store argon2).Run trail storage) :
    storage = trail.flatMap fun entry => appended argon2 entry.2 := by
  induction run with
  | initial valid => exact valid
  | step _ transition inductionHypothesis =>
    rw [List.flatMap_append, ← inductionHypothesis, List.flatMap_singleton, ← after_eq]
    exact (Option.some.inj transition).symm

section Searches

variable {storage : Bytes} {username : Str}

/-- A name that is too long for its column aborts the search, unless the file is empty. -/
theorem get_of_long (long : usernameCap < username.len) :
    get storage username = if storage = [] then .err notFound else .panic := by
  rw [get, getLoop]
  by_cases empty : storage = []
  · simp [empty, readBuf]
  · have some : (readBuf storage 0).length ≠ 0 := by
      have positive : 0 < storage.length := List.length_pos_iff.mpr empty
      have room : 0 < bufferCap := by decide
      simp only [readBuf, List.drop_zero, List.length_take]
      omega
    have aborts : evaluateSegments (readBuf storage 0) username (List.range segreadWide) = .panic := by
      have first : List.range segreadWide = [0, 1, 2, 3] := rfl
      rw [first, evaluateSegments, SegmentRead.evaluate, if_pos long]
      rfl
    simp only [some, if_false, aborts, empty, Outcome.panic_bind]

/-- The search never comes back with a password. -/
theorem get_cases (storage : Bytes) (username : Str) :
    get storage username =
      if storage = [] ∨ username.len ≤ usernameCap ∧ ScanPasses storage username 0 then
        .err notFound
      else .panic := by
  rcases Nat.lt_or_ge usernameCap username.len with long | short
  · rw [get_of_long long]
    simp [Nat.not_le.mpr long]
  · rw [get_eq short]
    simp [short]

end Searches

/-- Nobody is ever let in: a login is refused where the search comes to its end, and aborts
everywhere else. -/
theorem authenticate_eq (argon2 : Argon2) (storage : Bytes) (auth : AuthData) :
    authenticate argon2 storage auth =
      if storage = [] ∨ auth.username.len ≤ usernameCap ∧ ScanPasses storage auth.username 0 then
        .ok false
      else .panic := by
  have found := get_cases storage auth.username
  rw [authenticate]
  split at found
  · rename_i ends
    rw [found, if_pos ends]
  · rename_i aborts
    rw [found, if_neg aborts]

/-- The call writes a whole record, of the size of a segment. -/
def Whole (argon2 : Argon2) : StoreCall → Prop
  | .create auth written => ∃ buffer, recordOf argon2 auth = .ok buffer ∧
      buffer.length = segmentSize ∧ segmentSize ≤ written.count
  | _ => True

/-- The call is one of `create`. -/
def StoreCall.creates : StoreCall → Bool
  | .create .. => true
  | _ => false

/-- The calls of `create` of a history. -/
def creations (trail : List (Bytes × StoreCall)) : List (Bytes × StoreCall) :=
  trail.filter fun entry => entry.2.creates

/-- A whole record is one of the file's segments. -/
theorem stored_of_whole {argon2 : Argon2} {auth : AuthData} {written : Written}
    (whole : Whole argon2 (.create auth written)) :
    ∃ record : StoredRecord, appended argon2 (.create auth written) = record.octets := by
  obtain ⟨buffer, made, size, room⟩ := whole
  have all : appended argon2 (.create auth written) = buffer := by
    rw [appended, made]
    exact List.take_of_length_le (size ▸ room)
  rw [recordOf, Outcome.bind_eq_ok] at made
  obtain ⟨dataCreate, _, made⟩ := made
  obtain ⟨⟨count, octets⟩, wrote, same⟩ := Outcome.bind_eq_ok.mp made
  cases same
  exact ⟨⟨_, dataCreate, count, wrote, size⟩, all⟩

/-- Where every call wrote a whole record, the file is made of segments, one for each call. -/
theorem records_of_run {argon2 : Argon2} {trail : List (Bytes × StoreCall)} {storage : Bytes}
    (run : (store argon2).Run trail storage) (whole : ∀ entry ∈ trail, Whole argon2 entry.2) :
    ∃ records : List StoredRecord, storage = storageOf records ∧
      records.length = (creations trail).length := by
  rw [file_of_run run]
  clear run
  induction trail with
  | nil => exact ⟨[], rfl, rfl⟩
  | cons entry trail inductionHypothesis =>
    obtain ⟨records, file, length⟩ := inductionHypothesis fun later member =>
      whole later (List.mem_cons_of_mem _ member)
    obtain ⟨state, call⟩ := entry
    have first := whole (state, call) List.mem_cons_self
    cases call with
    | create auth written =>
      obtain ⟨record, octets⟩ := stored_of_whole first
      refine ⟨record :: records, ?_, ?_⟩
      · rw [List.flatMap_cons, file, octets]
        rfl
      · rw [List.length_cons, length]
        rfl
    | authenticate auth => exact ⟨records, file, length⟩
    | reopen => exact ⟨records, file, length⟩

/-- In every history of a store, with whatever writes cut short, its file is what was appended
to it, and no credential is ever accepted. Behind one to four whole records every login
aborts. -/
theorem nobody_admitted {argon2 : Argon2} {trail : List (Bytes × StoreCall)} {storage : Bytes}
    (run : (store argon2).Run trail storage) :
    storage = (trail.flatMap fun entry => appended argon2 entry.2) ∧
    (∀ auth, authenticate argon2 storage auth =
      if storage = [] ∨ auth.username.len ≤ usernameCap ∧ ScanPasses storage auth.username 0 then
        .ok false
      else .panic) ∧
    ((∀ entry ∈ trail, Whole argon2 entry.2) → creations trail ≠ [] →
      (creations trail).length ≤ 4 → ∀ auth, authenticate argon2 storage auth = .panic) := by
  refine ⟨file_of_run run, authenticate_eq argon2 storage, fun whole some few auth => ?_⟩
  obtain ⟨records, rfl, length⟩ := records_of_run run whole
  have nonempty : records ≠ [] := by
    rw [← List.length_pos_iff, length]
    exact List.length_pos_iff.mpr some
  have aborts : get (storageOf records) auth.username = .panic := by
    rcases Nat.lt_or_ge usernameCap auth.username.len with long | short
    · have full : storageOf records ≠ [] := by
        rw [← List.length_pos_iff, length_storageOf]
        exact Nat.mul_pos (List.length_pos_iff.mpr nonempty) (by decide)
      rw [get_of_long long, if_neg full]
    · exact get_few short nonempty (length ▸ few)
  rw [authenticate, aborts]

/-- The password of a user, and its hash with the salt of every password. -/
def arisyPassword : Str := ⟨Text.ascii "wadidawww9823", by decide⟩

def arisyHash : Str :=
  ⟨Text.ascii "$argon2id$v=19$m=19456,t=2,p=1$cmFuZG9tNzg$1EQJQ/InAZbd1n+LYrLMQcYUVRHIRfPVW+UTFIXERoc",
    by decide⟩

/-- The crate on this password. -/
def argon2Arisy : Argon2 where
  hashEncoded pwd salt :=
    if pwd = arisyPassword.bytes ∧ salt = PasswordHashed.salt78.bytes then some arisyHash else none
  verifyEncoded encoded pwd :=
    if encoded = arisyHash then some (pwd = arisyPassword.bytes) else none

/-- What is stored for the user. -/
def arisy : Credential where
  username := ⟨⟨Text.ascii "arisy", by decide⟩, by decide, by decide, by decide⟩
  password := ⟨arisyHash, by decide, by decide, by decide⟩
  alg := ⟨PasswordHashed.algName, by decide, by decide, by decide⟩
  salt := ⟨PasswordHashed.salt78, by decide, by decide, by decide⟩

/-- What the user comes with. -/
def arisyLogin : AuthData := ⟨arisy.username.text, .plain arisyPassword⟩

/-- A user that was just stored is not accepted, although the password is the right one. -/
theorem nobody_admitted_arisy :
    ∃ storage, (store argon2Arisy).Run [([], .create arisyLogin ⟨segmentSize, none⟩)] storage ∧
      storage = arisy.record ∧
      argon2Arisy.verifyEncoded arisy.password.text arisyPassword.bytes = some true ∧
      authenticate argon2Arisy storage arisyLogin = .panic := by
  have hashes : arisyLogin.hashPassword argon2Arisy = (.ok arisy.authData : Outcome IoError _) := by
    decide
  have made : recordOf argon2Arisy arisyLogin = .ok arisy.record := by
    rw [recordOf, hashes, Outcome.ok_bind, arisy.read_authData]
    rfl
  have size : arisy.record.length = segmentSize := arisy.length_record
  have run : (store argon2Arisy).Run [([], .create arisyLogin ⟨segmentSize, none⟩)]
      (after argon2Arisy [] (.create arisyLogin ⟨segmentSize, none⟩)) := .step (.initial rfl) rfl
  obtain ⟨_, _, aborts⟩ := nobody_admitted run
  refine ⟨_, run, ?_, by decide, aborts ?_ (List.cons_ne_nil _ _) (by decide) _⟩
  · rw [after_eq, appended, made]
    exact List.take_of_length_le (Nat.le_of_eq size)
  · intro entry member
    rw [List.mem_singleton.mp member]
    exact ⟨_, made, size, Nat.le_refl _⟩

end Authenticator
end Sipusu
