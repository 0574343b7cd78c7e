import Sipusu.Foundation.Path
import Sipusu.Foundation.Text
import Sipusu.MessageBroker.Client.Clobj

/-!
# Session directories

The paths that `ClientStore::new` and `ClientStore::restore` of
`src/message_broker/client/storage.rs` make. The client's identifier is pushed as it is,
slashes and dots included.
-/

namespace Sipusu.MessageBroker

open Sipusu.Foundation

/-- `DATA_STORE`. -/
def dataStore : Bytes := Text.ascii ".dbg_data/clients"

namespace ClientStore

/-- The path of all sessions, from the current directory. -/
def storePath (currentDir : Bytes) : Bytes := Path.push currentDir dataStore

/-- The path of a session. -/
def path (currentDir : Bytes) (clid : ClientID) : Bytes :=
  Path.push (storePath currentDir) clid.id.bytes

/-- The names of the files in the directory of a session. -/
def fileNames : List Bytes :=
  [Text.ascii "session", Text.ascii "subscribed", Text.ascii "metadata"]

/-- The directory of all sessions. -/
def storeDirectory (currentDir : Bytes) : List Bytes :=
  Path.resolve [] (Path.segments (storePath currentDir))

/-- The directory of a session. -/
def directory (currentDir : Bytes) (clid : ClientID) : List Bytes :=
  Path.resolve [] (Path.segments (path currentDir clid))

/-- Two sessions are kept apart: each has a directory of its own right below the directory
of all sessions. -/
structure Isolated (store left right : List Bytes) : Prop where
  different : left ≠ right
  notInside : ¬ left <+: right
  notAround : ¬ right <+: left
  leftChild : ∃ name, left = store ++ [name]
  rightChild : ∃ name, right = store ++ [name]
  filesApart : ∀ file ∈ fileNames, ∀ other ∈ fileNames, left ++ [file] ≠ right ++ [other]

/-- A client identifier amounts to a name below the store. It is that name, with detours
that lead back; or it climbs out of the store and comes back down to it before the name; or
it starts at the root with all of the store's path. -/
def Names (store : List Bytes) (id name : Bytes) : Prop :=
  let travel := Path.travel (Path.segments id)
  if Path.Absolute id then travel.names = store ++ [name]
  else travel.names = store.drop (store.length - travel.ups) ++ [name]

/-- The directory of a session is right below the store exactly when the identifier amounts
to its name. -/
theorem directory_eq_iff {currentDir : Bytes} {clid : ClientID} {name : Bytes} :
    directory currentDir clid = storeDirectory currentDir ++ [name] ↔
      Names (storeDirectory currentDir) clid.id.bytes name := by
  rw [directory, path, Names]
  by_cases absolute : Path.Absolute clid.id.bytes
  · rw [if_pos absolute, Path.segments_push_absolute absolute, Path.resolve_eq_arrive,
      Path.Travel.arrive, List.take_nil, List.nil_append]
  · rw [if_neg absolute, Path.segments_push absolute, Path.resolve_append, ← storeDirectory,
      Path.resolve_eq_arrive, Path.arrive_eq_append_iff]

/-- Directories right below the store are apart when their names differ. -/
theorem isolated_of_children {store : List Bytes} {name other : Bytes} (different : name ≠ other) :
    Isolated store (store ++ [name]) (store ++ [other]) := by
  have apart : ∀ {name other : Bytes}, name ≠ other → ¬ store ++ [name] <+: store ++ [other] := by
    intro name other different inside
    have same := inside.eq_of_length (by simp)
    simp only [List.append_cancel_left_eq, List.cons.injEq, and_true] at same
    exact different same
  refine ⟨?_, apart different, apart different.symm, ⟨name, rfl⟩, ⟨other, rfl⟩, ?_⟩
  · intro same
    exact apart different (same ▸ List.prefix_refl _)
  · intro file _ otherFile _ same
    have files := (List.append_inj' same rfl).1
    exact apart different (files ▸ List.prefix_refl _)

/-- Two sessions are kept apart exactly when their identifiers amount to different names. -/
theorem isolated_directories_iff (currentDir : Bytes) (left right : ClientID) :
    Isolated (storeDirectory currentDir) (directory currentDir left) (directory currentDir right) ↔
      ∃ name other, Names (storeDirectory currentDir) left.id.bytes name ∧
        Names (storeDirectory currentDir) right.id.bytes other ∧ name ≠ other := by
  constructor
  · intro isolated
    obtain ⟨name, leftChild⟩ := isolated.leftChild
    obtain ⟨other, rightChild⟩ := isolated.rightChild
    refine ⟨name, other, directory_eq_iff.mp leftChild, directory_eq_iff.mp rightChild, ?_⟩
    rintro rfl
    exact isolated.different (leftChild.trans rightChild.symm)
  · rintro ⟨name, other, leftNames, rightNames, different⟩
    rw [directory_eq_iff.mpr leftNames, directory_eq_iff.mpr rightNames]
    exact isolated_of_children different

end ClientStore
end Sipusu.MessageBroker
