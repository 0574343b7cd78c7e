import Sipusu.Foundation.Assoc
import Sipusu.Foundation.Comparison
import Sipusu.Foundation.Utf8

/-!
# The topic trie

`src/ds/trie.rs`. A node owns its children, so the cells reached through raw
pointers form a tree and in-place updates become updates of that tree. Only
`create_branch` fills a child map and it always stores a boxed node; the root is
the one pointer a null test can find empty.
-/

namespace Sipusu.Ds

open Sipusu.Foundation

/-- `struct Child<T>`: the branches below a node and the node's subscriber cell. -/
inductive Child (T : Type) where
  | mk (child : List (Str × Child T)) (subscriber : Option T)

namespace Child

variable {T : Type}

/-- The branch map of a node. -/
def child : Child T → List (Str × Child T)
  | .mk child _ => child

/-- The subscriber cell of a node; a null pointer is `none`. -/
def subscriber : Child T → Option T
  | .mk _ subscriber => subscriber

@[simp] theorem child_mk (child : List (Str × Child T)) (subscriber : Option T) :
    (Child.mk child subscriber).child = child := rfl

@[simp] theorem subscriber_mk (child : List (Str × Child T)) (subscriber : Option T) :
    (Child.mk child subscriber).subscriber = subscriber := rfl

/-- `Child::new`. -/
def new : Child T := .mk [] none

/-- `Child::create_branch`. -/
def createBranch (node : Child T) (topic : Str) : Child T :=
  .mk (Assoc.insert topic new node.child) node.subscriber

/-- `Child::set_subscriber`: fill an empty cell and report whether it was empty. -/
def setSubscriber (node : Child T) (value : T) : Bool × Child T :=
  match node.subscriber with
  | none => (true, .mk node.child (some value))
  | some _ => (false, node)

/-- `Child::delete_subscriber`: empty the cell if its value is not `ne` to the given one. -/
def deleteSubscriber [PartialEq T] (value : T) (node : Child T) : Bool × Child T :=
  match node.subscriber with
  | none => (false, node)
  | some current =>
      if PartialEq.ne current value then (false, node) else (true, .mk node.child none)

/-- `Child::get_subscriber`. -/
def getSubscriber (node : Child T) : Option T := node.subscriber

/-- Write an updated branch back where a cursor found it. -/
def setBranch (node : Child T) (part : Str) (branch : Child T) : Child T :=
  .mk (Assoc.set part branch node.child) node.subscriber

/-- The `while` loop of `Trie::insert` from the node under the cursor, with the
parts not yet descended. One unit of fuel is one turn of the loop; `none` means
the loop is still running when the fuel is gone. A missing branch is created and
the same part is tried again. -/
def insertLoop : Nat → Child T → List Str → T → Option (Bool × Child T)
  | 0, _, _, _ => none
  | _ + 1, node, [], value => some (node.setSubscriber value)
  | fuel + 1, node, part :: rest, value =>
      match Assoc.get part node.child with
      | some branch =>
          (insertLoop fuel branch rest value).map fun result =>
            (result.1, node.setBranch part result.2)
      | none => insertLoop fuel (node.createBranch part) (part :: rest) value

/-- The `for` loop of `Trie::get` below a node. The callback may replace the
node it is given, as `delete_subscriber` does through the atomic cell. -/
def get {R : Type} : Child T → List Str → (Child T → R × Child T) → Option (R × Child T)
  | node, [], f => some (f node)
  | node, part :: rest, f =>
      match Assoc.get part node.child with
      | some branch =>
          (get branch rest f).map fun result => (result.1, node.setBranch part result.2)
      | none => none

mutual

/-- `Trie::dfs_empty_and_remove`: drop the branches that hold nothing and report
whether the node itself now holds nothing. -/
def dfsEmptyAndRemove : Child T → Child T × Bool
  | .mk child subscriber =>
      let visited := dfsChildren child
      let child := visited.2.foldl (fun child key => Assoc.remove key child) visited.1
      (.mk child subscriber, child.isEmpty && subscriber.isNone)

/-- Its loop over the children: every child is visited, and the keys of the
empty ones are collected in `empty_keys`. -/
def dfsChildren : List (Str × Child T) → List (Str × Child T) × List Str
  | [] => ([], [])
  | (key, node) :: rest =>
      let visited := dfsEmptyAndRemove node
      let others := dfsChildren rest
      ((key, visited.1) :: others.1, if visited.2 then key :: others.2 else others.2)

end

end Child

/-- `struct Trie<T>`: the root pointer. -/
structure Trie (T : Type) where
  root : Option (Child T)

namespace Trie

variable {T : Type}

/-- The octet of `'/'`. -/
def separator : UInt8 := 0x2F

/-- `topic.split('/')`. -/
def parts (topic : Str) : List Str := topic.split separator (by decide)

/-- `Trie::new`. -/
def new : Trie T := ⟨some .new⟩

/-- The loop of `Trie::insert` from its start, within `fuel` turns. A null root
is replaced by a fresh node, and the turn is repeated. -/
def insertWithin : Nat → Trie T → Str → T → Option (Bool × Trie T)
  | 0, _, _, _ => none
  | fuel + 1, trie, topic, value =>
      match trie.root with
      | some node =>
          (node.insertLoop (fuel + 1) (parts topic) value).map fun result =>
            (result.1, ⟨some result.2⟩)
      | none => insertWithin fuel ⟨some .new⟩ topic value

/-- `Trie::insert`, given as many turns as any topic needs. -/
def insert (trie : Trie T) (topic : Str) (value : T) : Option (Bool × Trie T) :=
  trie.insertWithin (2 * (parts topic).length + 2) topic value

/-- `Trie::get`. -/
def get {R : Type} (trie : Trie T) (topic : Str) (f : Child T → R × Child T) :
    Option (R × Trie T) :=
  match trie.root with
  | some node => (node.get (parts topic) f).map fun result => (result.1, ⟨some result.2⟩)
  | none => none

/-- `Trie::get_val`. -/
def getVal (trie : Trie T) (topic : Str) : Option T :=
  (trie.get topic fun node => (node.getSubscriber, node)).bind Prod.fst

/-- `Trie::remove`: the deletion's answer, and the trie after it. -/
def remove [PartialEq T] (trie : Trie T) (topic : Str) (value : T) : Option Bool × Trie T :=
  match trie.get topic (Child.deleteSubscriber value) with
  | some result => (some result.1, result.2)
  | none => (none, trie)

/-- `Trie::clean_branch`: the root stays, whatever the traversal says of it. -/
def cleanBranch (trie : Trie T) : Trie T :=
  ⟨trie.root.map fun node => node.dfsEmptyAndRemove.1⟩

end Trie
end Sipusu.Ds
