import Sipusu.Foundation.Action
import Sipusu.MessageBroker.Client.RestoreAbort

/-!
# Restores that fail

`ClientStore::restore` on whatever a session directory holds. It enters the restore in the log
before it looks at the other two files, so it fails without a trace only while it reads the
log.
-/

namespace Sipusu.MessageBroker

open Sipusu.Foundation Sipusu.Protocol.V5

/-- A session directory, of which files may be missing. -/
structure SessionFiles where
  session : Option Bytes
  metadata : Option Bytes
  subscribed : Option Bytes
deriving DecidableEq

namespace SessionFiles

/-- The directory of a store with all its files. -/
def ofStore (store : SessionStore) : SessionFiles :=
  { session := some store.session, metadata := some store.metadata
    subscribed := some store.subscribed }

/-- `dir.is_dir()`, with the error up to the identifier that its text names. -/
def checkDir : Action (Option SessionFiles) IoError Unit := Action.ask fun dir =>
  if dir.isSome then .ok () else .err ⟨.notFound, "no session for client id"⟩

/-- The content of a file, or the given error if there is no such file. -/
def openFile (file : SessionFiles → Option Bytes) (missing : IoError) :
    Action (Option SessionFiles) IoError Bytes := Action.ask fun dir =>
  match dir.bind file with
  | some content => .ok content
  | none => .err missing

/-- The error of the operating system for a file that is not there. -/
def noSuchFile : IoError := ⟨.notFound, "No such file or directory"⟩

/-- The log with an entry for the restore. -/
def enterRestored (now : Nat) (files : SessionFiles) : SessionFiles :=
  { files with
    session := files.session.map (· ++ writeWall [⟨UInt64.ofNat now, .clientRestored⟩]) }

/-- The files that are read behind the log. -/
def restoreFiles (iteration : IterationOrder) :
    Action (Option SessionFiles) IoError Restored := do
  let metadata ← openFile SessionFiles.metadata noSuchFile
  let mdata ← Action.ofOutcome (SessionStore.restoreMetadata metadata)
  let subscribed ← openFile SessionFiles.subscribed noSuchFile
  let subs ← Action.ofOutcome (ClientStore.restoreSubscribed subscribed iteration)
  return { mdata, subs }

/-- `ClientStore::restore`. -/
def restore (iteration : IterationOrder) (now : Nat) :
    Action (Option SessionFiles) IoError Restored := do
  checkDir
  let session ← openFile SessionFiles.session ⟨.notFound, "no session"⟩
  Action.ofOutcome (restoreSession session now)
  Action.modify (Option.map (enterRestored now))
  restoreFiles iteration

/-- The log can be read, and its last event is a disconnection that has not expired. -/
def Reopens (files : SessionFiles) (now : Nat) : Prop :=
  ∃ session wall last expiration, files.session = some session ∧ readWall session = .ok wall ∧
    wall.getLast? = some last ∧ (last.value = .clientDisconnected expiration ∨
      last.value = .disconnectByServer expiration) ∧ now < expiration.toNat

/-- The settings of a metadata file are followed by something that its reader aborts on. -/
def MetadataAborts (metadata : Bytes) : Prop :=
  ∃ settings tail, metadata.take SessionStore.metadataBuffer = settings ++ tail ∧
    settings.length = 13 ∧ MetaData.Aborting tail

/-- The other two files are not refused: there is a metadata file with all settings, and
subscriptions of which no line is malformed, unless the reader aborts before. -/
def Sound (files : SessionFiles) : Prop :=
  ∃ metadata, files.metadata = some metadata ∧ 13 ≤ metadata.length ∧
    (MetadataAborts metadata ∨ ∃ subscribed, files.subscribed = some subscribed ∧
      (WholeRecords subscribed ∨ BlankRecord subscribed))

theorem restoreSession_eq_ok_iff_reopens {session : Bytes} {now : Nat} :
    restoreSession session now = .ok () ↔ ∃ wall last expiration, readWall session = .ok wall ∧
      wall.getLast? = some last ∧ (last.value = .clientDisconnected expiration ∨
        last.value = .disconnectByServer expiration) ∧ now < expiration.toNat := by
  rw [restoreSession, Outcome.bind_eq_ok]
  constructor
  · rintro ⟨wall, read, decides⟩
    cases isLast : wall.getLast? with
    | none =>
      rw [isLast] at decides
      cases decides
    | some last =>
      rw [isLast] at decides
      obtain ⟨expiration, event, unexpired⟩ := decideRestore_eq_ok_iff.mp decides
      exact ⟨wall, last, expiration, read, isLast, event, unexpired⟩
  · rintro ⟨wall, last, expiration, read, isLast, event, unexpired⟩
    refine ⟨wall, read, ?_⟩
    rw [isLast]
    exact decideRestore_eq_ok_iff.mpr ⟨expiration, event, unexpired⟩

/-- A metadata file that is long enough is read or aborts its reader. -/
theorem restoreMetadata_cases {metadata : Bytes} (enough : 13 ≤ metadata.length) :
    (SessionStore.restoreMetadata metadata = .panic ∧ MetadataAborts metadata) ∨
      ((∃ mdata, SessionStore.restoreMetadata metadata = .ok mdata) ∧ ¬ MetadataAborts metadata) := by
  have buffer : SessionStore.metadataBuffer = 512 := rfl
  have long : ¬ (metadata.take SessionStore.metadataBuffer).length < 13 := by
    rw [List.length_take]
    omega
  have settings : ((metadata.take SessionStore.metadataBuffer).take 13).length = 13 :=
    List.length_take_of_le (Nat.not_lt.mp long)
  have split := List.take_append_drop 13 (metadata.take SessionStore.metadataBuffer)
  have cases_ := @MetaData.deserialize_cases IoError _ settings
    ((metadata.take SessionStore.metadataBuffer).drop 13)
  rw [split] at cases_
  rw [SessionStore.restoreMetadata, if_neg long]
  rcases cases_ with ⟨aborted, aborting⟩ | ⟨⟨result, read⟩, fine⟩
  · rw [aborted]
    exact .inl ⟨rfl, _, _, split.symm, settings, aborting⟩
  · rw [read]
    refine .inr ⟨⟨result.1, rfl⟩, ?_⟩
    rintro ⟨front, back, same, length, aborting⟩
    have parts := List.append_inj (split.trans same) (settings.trans length.symm)
    rw [← parts.2] at aborting
    exact fine aborting

theorem restoreMetadata_of_short {metadata : Bytes} (short : metadata.length < 13) :
    SessionStore.restoreMetadata metadata = .err ⟨.invalidData, "metadata structure is invalid"⟩ := by
  have fewer : (metadata.take SessionStore.metadataBuffer).length < 13 :=
    Nat.lt_of_le_of_lt (List.length_take_le' _ _) short
  rw [SessionStore.restoreMetadata, if_pos fewer]

section Files

variable {file : SessionFiles → Option Bytes} {missing : IoError} {dir : Option SessionFiles}

theorem openFile_of_some {content : Bytes} (found : dir.bind file = some content) :
    openFile file missing dir = (.ok content, dir) := by
  rw [openFile, Action.ask_apply, found]

theorem openFile_of_none (absent : dir.bind file = none) :
    openFile file missing dir = (.err missing, dir) := by
  rw [openFile, Action.ask_apply, absent]

theorem checkDir_keeps : Action.Keeps checkDir := Action.Keeps.ask _

theorem openFile_keeps (file : SessionFiles → Option Bytes) (missing : IoError) :
    Action.Keeps (openFile file missing) := Action.Keeps.ask _

theorem restoreFiles_keeps (iteration : IterationOrder) : Action.Keeps (restoreFiles iteration) := by
  refine (openFile_keeps _ _).bind fun metadata => ?_
  refine (Action.Keeps.ofOutcome _).bind fun mdata => ?_
  refine (openFile_keeps _ _).bind fun subscribed => ?_
  exact (Action.Keeps.ofOutcome _).bind fun subs => Action.Keeps.pure _

end Files

/-- Behind the settings, the subscriptions decide how a restore ends. -/
theorem restoreFiles_of_settings {files : SessionFiles} {metadata : Bytes} {mdata : MetaData}
    (present : files.metadata = some metadata)
    (read : SessionStore.restoreMetadata metadata = .ok mdata) (iteration : IterationOrder) :
    (restoreFiles iteration (some files)).1 =
      match files.subscribed with
      | none => .err noSuchFile
      | some subscribed => ClientStore.restoreSubscribed subscribed iteration >>= fun subs =>
          .ok { mdata, subs } := by
  have opened : openFile SessionFiles.metadata noSuchFile (some files) =
      (.ok metadata, some files) := openFile_of_some present
  rw [restoreFiles, Action.bind_of_ok opened, read, Action.ofOutcome_ok_bind]
  cases listed : files.subscribed with
  | none =>
    have absent : openFile SessionFiles.subscribed noSuchFile (some files) =
        (.err noSuchFile, some files) := openFile_of_none listed
    rw [Action.bind_of_err absent]
  | some subscribed =>
    have found : openFile SessionFiles.subscribed noSuchFile (some files) =
        (.ok subscribed, some files) := openFile_of_some listed
    rw [Action.bind_of_ok found, Action.ofOutcome_bind_pure]
    rfl

theorem restoreSubscribed_ne_err_iff (subscribed : Bytes) (iteration : IterationOrder) :
    (∀ error, ClientStore.restoreSubscribed subscribed iteration ≠ .err error) ↔
      WholeRecords subscribed ∨ BlankRecord subscribed := by
  rw [← restoreSubscribed_eq_ok_iff subscribed iteration,
    ← restoreSubscribed_eq_panic_iff subscribed iteration]
  cases ClientStore.restoreSubscribed subscribed iteration <;> simp

/-- Exactly sound files are not refused. -/
theorem restoreFiles_ne_err_iff (files : SessionFiles) (iteration : IterationOrder) :
    (∀ error, (restoreFiles iteration (some files)).1 ≠ .err error) ↔ files.Sound := by
  cases present : files.metadata with
  | none =>
    have absent : openFile SessionFiles.metadata noSuchFile (some files) =
        (.err noSuchFile, some files) := openFile_of_none present
    rw [restoreFiles, Action.bind_of_err absent]
    refine iff_of_false (fun never => never _ rfl) ?_
    rintro ⟨metadata, found, _⟩
    rw [present] at found
    cases found
  | some metadata =>
    have same {other : Bytes} (found : files.metadata = some other) : metadata = other :=
      Option.some.inj (present.symm.trans found)
    have opened : openFile SessionFiles.metadata noSuchFile (some files) =
        (.ok metadata, some files) := openFile_of_some present
    by_cases short : metadata.length < 13
    · rw [restoreFiles, Action.bind_of_ok opened, restoreMetadata_of_short short]
      refine iff_of_false (fun never => never _ rfl) ?_
      rintro ⟨other, found, enough, _⟩
      rw [← same found] at enough
      exact Nat.not_lt.mpr enough short
    · have enough : 13 ≤ metadata.length := Nat.not_lt.mp short
      rcases restoreMetadata_cases enough with ⟨aborted, aborting⟩ | ⟨⟨mdata, read⟩, fine⟩
      · rw [restoreFiles, Action.bind_of_ok opened, aborted]
        exact iff_of_true nofun ⟨metadata, present, enough, .inl aborting⟩
      · have sound : files.Sound ↔ ∃ subscribed, files.subscribed = some subscribed ∧
            (WholeRecords subscribed ∨ BlankRecord subscribed) := by
          constructor
          · rintro ⟨other, found, _, aborting | listed⟩
            · rw [← same found] at aborting
              exact absurd aborting fine
            · exact listed
          · intro listed
            exact ⟨metadata, present, enough, .inr listed⟩
        rw [restoreFiles_of_settings present read, sound]
        cases files.subscribed with
        | none => exact iff_of_false (fun never => never _ rfl) nofun
        | some subscribed =>
          have listed := restoreSubscribed_ne_err_iff subscribed iteration
          simp only [Option.some.injEq, exists_eq_left', ← listed]
          cases ClientStore.restoreSubscribed subscribed iteration <;> simp

/-- With all files there, this is the restore of a store. -/
theorem restore_ofStore (store : SessionStore) (iteration : IterationOrder) (now : Nat) :
    restore iteration now (some (ofStore store)) =
      (SessionStore.restore (some store) iteration now >>= fun result => .ok result.1,
        match restoreSession store.session now with
        | .ok () => some (ofStore (store.logSession [⟨UInt64.ofNat now, .clientRestored⟩]))
        | _ => some (ofStore store)) := by
  have steps : SessionStore.restore (some store) iteration now =
      restoreSession store.session now >>= fun _ =>
        SessionStore.restoreMetadata store.metadata >>= fun mdata =>
          ClientStore.restoreSubscribed store.subscribed iteration >>= fun subs =>
            .ok ({ mdata, subs }, store.logSession [⟨UInt64.ofNat now, .clientRestored⟩]) := rfl
  have there : checkDir (some (ofStore store)) = (.ok (), some (ofStore store)) := rfl
  have opened := @openFile_of_some SessionFiles.session ⟨.notFound, "no session"⟩
    (some (ofStore store)) store.session rfl
  rw [restore, Action.bind_of_ok there, Action.bind_of_ok opened, steps]
  cases restoreSession store.session now with
  | err error => rfl
  | panic => rfl
  | ok value =>
    have found := @openFile_of_some SessionFiles.metadata noSuchFile
      (some (enterRestored now (ofStore store))) store.metadata rfl
    have listed := @openFile_of_some SessionFiles.subscribed noSuchFile
      (some (enterRestored now (ofStore store))) store.subscribed rfl
    rw [Action.ofOutcome_ok_bind, Action.modify_bind, Option.map_some, restoreFiles,
      Action.bind_of_ok found, Outcome.ok_bind]
    cases SessionStore.restoreMetadata store.metadata with
    | err error => rfl
    | panic => rfl
    | ok mdata =>
      rw [Action.ofOutcome_ok_bind, Action.bind_of_ok listed, Outcome.ok_bind]
      cases ClientStore.restoreSubscribed store.subscribed iteration <;> rfl

/-- The entry for the restore is no empty line. -/
theorem enterRestored_ne {files : SessionFiles} {session : Bytes}
    (present : files.session = some session) (now : Nat) : files.enterRestored now ≠ files := by
  intro same
  have logs := congrArg SessionFiles.session same
  rw [enterRestored, present, Option.map_some, Option.some.injEq,
    List.append_right_eq_self] at logs
  have entry : 0 < (writeWall [⟨UInt64.ofNat now, .clientRestored⟩]).length := by
    simp [writeWall, WALL.serialize]
  rw [logs] at entry
  cases entry

/-- Behind the opening of the log, a restore that goes on past the log must find the other
files sound. -/
theorem restoreLog_atomic_iff {files : SessionFiles} {session : Bytes}
    (present : files.session = some session) (iteration : IterationOrder) (now : Nat) :
    Action.Atomic (Action.ofOutcome (restoreSession session now) >>= fun _ =>
      Action.modify (Option.map (enterRestored now)) >>= fun _ => restoreFiles iteration)
        (some files) ↔ (restoreSession session now = .ok () → files.Sound) := by
  have changes : Option.map (enterRestored now) (some files) ≠ some files := by
    rw [Option.map_some, ne_eq, Option.some.injEq]
    exact enterRestored_ne present now
  -- The entry in the log leaves the other files as they are.
  have behind : Action.Atomic (Action.modify (Option.map (enterRestored now)) >>=
      fun _ => restoreFiles iteration) (some files) ↔ files.Sound := by
    rw [@Action.atomic_modify_bind_iff _ _ _ _ _ (fun _ => restoreFiles iteration) changes
      (restoreFiles_keeps iteration)]
    exact restoreFiles_ne_err_iff (files.enterRestored now) iteration
  rw [Action.atomic_bind_iff (Action.Keeps.ofOutcome _)]
  constructor
  · intro atomic passed
    exact behind.mp (atomic () passed)
  · intro sound _ passed
    exact behind.mpr (sound passed)

/-- A restore that fails leaves no trace exactly when its log does not let it go on, or the
other files are sound. -/
theorem restore_atomic_iff (dir : Option SessionFiles) (iteration : IterationOrder) (now : Nat) :
    Action.Atomic (restore iteration now) dir ↔
      ∀ files ∈ dir, files.Reopens now → files.Sound := by
  rw [restore, Action.atomic_bind_iff checkDir_keeps]
  cases dir with
  | none => exact iff_of_true nofun nofun
  | some files =>
    simp only [Option.mem_some_iff, forall_eq', Action.atomic_bind_iff (openFile_keeps _ _)]
    cases present : files.session with
    | none =>
      have absent := @openFile_of_none SessionFiles.session ⟨.notFound, "no session"⟩ (some files)
        present
      refine iff_of_true ?_ ?_
      · intro _ _ session opened
        rw [absent] at opened
        cases opened
      · rintro ⟨session, _, _, _, found, _⟩
        rw [present] at found
        cases found
    | some session =>
      have opened := @openFile_of_some SessionFiles.session ⟨.notFound, "no session"⟩ (some files) _
        present
      have reopens : files.Reopens now ↔ restoreSession session now = .ok () := by
        rw [restoreSession_eq_ok_iff_reopens, Reopens, present]
        simp only [Option.some.injEq, exists_and_left, exists_eq_left']
      rw [reopens, opened, ← restoreLog_atomic_iff present iteration now]
      constructor
      · intro atomic
        exact atomic () rfl session rfl
      · intro atomic _ _ other same
        rw [← Outcome.ok.inj same]
        exact atomic

/-- A session that ended, with metadata that is cut short. -/
def cutMetadata : SessionFiles :=
  { session := some (writeWall [⟨0, .clientDisconnected 100⟩])
    metadata := some [0x05, 0x00, 0x3C, 0x00, 0x00]
    subscribed := some [] }

/-- The restore fails, and the log says that it did not. -/
theorem restore_leaves_entry :
    restore .listed 1 (some cutMetadata) =
        (.err ⟨.invalidData, "metadata structure is invalid"⟩,
          some (cutMetadata.enterRestored 1)) ∧
      ¬ Action.Atomic (restore .listed 1) (some cutMetadata) := by
  have failed : restore .listed 1 (some cutMetadata) =
      (.err ⟨.invalidData, "metadata structure is invalid"⟩,
        some (cutMetadata.enterRestored 1)) := rfl
  refine ⟨failed, ?_⟩
  intro atomic
  have same := atomic _ _ failed
  revert same
  decide

end SessionFiles
end Sipusu.MessageBroker
