import Sipusu.Ds.TrieMap

/-!
# Pruning is exact

What `clean_branch` takes out of the trie and what it leaves. The traversal is
one equation: a branch is replaced by its own pruning, and dropped where that
pruning came out empty. A node below the root stays exactly when its subtree
holds a subscriber, so a second traversal finds nothing to drop.
-/

namespace Sipusu.Ds

open Sipusu.Foundation

namespace Child

variable {T : Type}

/-- The node at the end of a path below a node. -/
def nodeAt : Child T → List Str → Option (Child T)
  | node, [] => some node
  | node, part :: rest =>
      match Assoc.get part node.child with
      | some branch => branch.nodeAt rest
      | none => none

/-- Some node of the subtree, the node itself included, has a subscriber. -/
def HasSubscriber (node : Child T) : Prop := ∃ path, (node.valueAt path).isSome

theorem nodeAt_cons {node below : Child T} {part : Str} {rest : List Str} :
    node.nodeAt (part :: rest) = some below ↔
      ∃ branch, Assoc.get part node.child = some branch ∧ branch.nodeAt rest = some below := by
  simp only [nodeAt]
  cases Assoc.get part node.child with
  | none => simp
  | some branch => simp

/-- A path that goes on below a node reads what the node has there. -/
theorem valueAt_append {node below : Child T} {path : List Str} (found : node.nodeAt path = some below)
    (rest : List Str) : node.valueAt (path ++ rest) = below.valueAt rest := by
  induction path generalizing node with
  | nil =>
    cases found
    rfl
  | cons part path inductionHypothesis =>
    obtain ⟨branch, lookup, found⟩ := nodeAt_cons.mp found
    rw [List.cons_append, valueAt_cons_some lookup, inductionHypothesis found]

/-- Every node on the way to a subscriber is there. -/
theorem nodeAt_isSome {node : Child T} {path rest : List Str}
    (bound : (node.valueAt (path ++ rest)).isSome) : ∃ below, node.nodeAt path = some below := by
  induction path generalizing node with
  | nil => exact ⟨node, rfl⟩
  | cons part path inductionHypothesis =>
    cases lookup : Assoc.get part node.child with
    | none =>
      rw [List.cons_append, valueAt_cons_none lookup] at bound
      cases bound
    | some branch =>
      rw [List.cons_append, valueAt_cons_some lookup] at bound
      obtain ⟨below, found⟩ := inductionHypothesis bound
      exact ⟨below, nodeAt_cons.mpr ⟨branch, lookup, found⟩⟩

theorem HasSubscriber.of_branch {node branch : Child T} {part : Str}
    (found : Assoc.get part node.child = some branch) (bound : branch.HasSubscriber) :
    node.HasSubscriber := by
  obtain ⟨path, bound⟩ := bound
  exact ⟨part :: path, by rw [valueAt_cons_some found]; exact bound⟩

theorem DistinctAll.mem {child : List (Str × Child T)} (distinct : DistinctAll child)
    {entry : Str × Child T} (member : entry ∈ child) : entry.2.Distinct := by
  induction child with
  | nil => cases member
  | cons first rest inductionHypothesis =>
    rcases List.mem_cons.mp member with rfl | later
    · exact distinct.1
    · exact inductionHypothesis distinct.2 later

mutual

/-- Structural induction, with the branches of a node taken as a list. -/
theorem induction {motive : Child T → Prop}
    (mk : ∀ child subscriber, (∀ entry ∈ child, motive entry.2) → motive (.mk child subscriber)) :
    ∀ node : Child T, motive node
  | .mk child subscriber => mk child subscriber (inductionAll mk child)

/-- The same for every listed branch. -/
theorem inductionAll {motive : Child T → Prop}
    (mk : ∀ child subscriber, (∀ entry ∈ child, motive entry.2) → motive (.mk child subscriber)) :
    ∀ child : List (Str × Child T), ∀ entry ∈ child, motive entry.2
  | (_, node) :: rest, entry, member => by
    rcases List.mem_cons.mp member with rfl | later
    · exact induction mk node
    · exact inductionAll mk rest entry later

end

section Traversal

/-- What becomes of one branch: it goes with an empty subtree, and is pruned otherwise. -/
def keep (entry : Str × Child T) : Option (Str × Child T) :=
  if entry.2.dfsEmptyAndRemove.2 then none else some (entry.1, entry.2.dfsEmptyAndRemove.1)

theorem keep_eq_some_iff {entry kept : Str × Child T} :
    keep entry = some kept ↔
      entry.2.dfsEmptyAndRemove.2 = false ∧ kept = (entry.1, entry.2.dfsEmptyAndRemove.1) := by
  unfold keep
  cases entry.2.dfsEmptyAndRemove.2 with
  | true => simp
  | false => simp [eq_comm]

theorem dfsChildren_fst (child : List (Str × Child T)) :
    (dfsChildren child).1 = child.map fun entry => (entry.1, entry.2.dfsEmptyAndRemove.1) := by
  induction child with
  | nil => rfl
  | cons entry rest inductionHypothesis => simp [dfsChildren, inductionHypothesis]

theorem mem_dfsChildren_snd {key : Str} (child : List (Str × Child T)) :
    key ∈ (dfsChildren child).2 ↔
      ∃ node, (key, node) ∈ child ∧ node.dfsEmptyAndRemove.2 = true := by
  induction child with
  | nil => simp [dfsChildren]
  | cons entry rest inductionHypothesis =>
    obtain ⟨name, node⟩ := entry
    by_cases verdict : node.dfsEmptyAndRemove.2 = true
    · simp [dfsChildren, verdict, inductionHypothesis, or_and_right, exists_or]
    · simp only [dfsChildren, verdict, Bool.false_eq_true, if_false, inductionHypothesis,
        List.mem_cons, Prod.mk.injEq, or_and_right, exists_or]
      constructor
      · exact .inr
      · rintro (⟨other, ⟨_, rfl⟩, empty⟩ | later)
        · exact absurd empty verdict
        · exact later

/-- Where keys are distinct the traversal drops or prunes each branch for itself. -/
theorem remove_dfsChildren {child : List (Str × Child T)} (nodup : (Assoc.keys child).Nodup) :
    (dfsChildren child).2.foldl (fun child key => Assoc.remove key child) (dfsChildren child).1 =
      child.filterMap keep := by
  rw [Assoc.foldl_remove_eq_filter, dfsChildren_fst, ← List.filterMap_eq_filter,
    List.filterMap_map]
  refine List.filterMap_congr fun entry member => ?_
  obtain ⟨key, node⟩ := entry
  have listed : key ∈ (dfsChildren child).2 ↔ node.dfsEmptyAndRemove.2 = true := by
    rw [mem_dfsChildren_snd]
    constructor
    · rintro ⟨other, otherMember, empty⟩
      have same := (Assoc.mem_iff_get nodup).mp otherMember
      rw [(Assoc.mem_iff_get nodup).mp member, Option.some.injEq] at same
      rw [same]
      exact empty
    · exact fun empty => ⟨node, member, empty⟩
  cases verdict : node.dfsEmptyAndRemove.2 with
  | true => simp [keep, listed, verdict]
  | false => simp [keep, listed, verdict]

theorem dfsEmptyAndRemove_eq {child : List (Str × Child T)} {subscriber : Option T}
    (nodup : (Assoc.keys child).Nodup) :
    (Child.mk child subscriber).dfsEmptyAndRemove =
      (.mk (child.filterMap keep) subscriber,
        (child.filterMap keep).isEmpty && subscriber.isNone) := by
  simp only [dfsEmptyAndRemove, remove_dfsChildren nodup]

/-- A branch that is left is the pruning of a branch that was there and is not empty. -/
theorem get_dfsEmptyAndRemove {child : List (Str × Child T)} {subscriber : Option T}
    (nodup : (Assoc.keys child).Nodup) {key : Str} {branch : Child T}
    (found : Assoc.get key (Child.mk child subscriber).dfsEmptyAndRemove.1.child = some branch) :
    ∃ node, (key, node) ∈ child ∧ node.dfsEmptyAndRemove = (branch, false) := by
  rw [dfsEmptyAndRemove_eq nodup] at found
  obtain ⟨⟨name, node⟩, member, kept⟩ := List.mem_filterMap.mp (Assoc.mem_of_get found)
  obtain ⟨verdict, same⟩ := keep_eq_some_iff.mp kept
  cases same
  exact ⟨node, member, Prod.ext rfl verdict⟩

/-- A node that is not reported empty still has a subscriber below it. -/
theorem hasSubscriber_of_verdict (node : Child T) (distinct : node.Distinct)
    (verdict : node.dfsEmptyAndRemove.2 = false) : node.dfsEmptyAndRemove.1.HasSubscriber := by
  induction node using induction with
  | mk child subscriber inductionHypothesis =>
    cases subscriber with
    | some value =>
      refine ⟨[], ?_⟩
      rw [dfsEmptyAndRemove_eq distinct.1]
      rfl
    | none =>
      -- The cell is empty, so some branch is left, and its subtree is not empty.
      cases left : (Child.mk child none : Child T).dfsEmptyAndRemove.1.child with
      | nil =>
        rw [dfsEmptyAndRemove_eq distinct.1] at left verdict
        simp only [child_mk] at left
        simp [left] at verdict
      | cons entry rest =>
        obtain ⟨key, branch⟩ := entry
        have found : Assoc.get key (Child.mk child none : Child T).dfsEmptyAndRemove.1.child =
            some branch := by
          rw [left, Assoc.get_cons, if_pos rfl]
        obtain ⟨node, member, pruned⟩ := get_dfsEmptyAndRemove distinct.1 found
        have below := inductionHypothesis (key, node) member (distinct.2.mem member)
          (by rw [pruned])
        rw [pruned] at below
        exact .of_branch found below

/-- Every node below the root of a pruned subtree leads to a subscriber. -/
theorem dfsEmptyAndRemove_full (node : Child T) (distinct : node.Distinct) {part : Str}
    {rest : List Str} {below : Child T}
    (found : node.dfsEmptyAndRemove.1.nodeAt (part :: rest) = some below) :
    below.HasSubscriber := by
  induction rest generalizing node part with
  | nil =>
    obtain ⟨branch, lookup, same⟩ := nodeAt_cons.mp found
    cases node with
    | mk child subscriber =>
      obtain ⟨source, member, pruned⟩ := get_dfsEmptyAndRemove distinct.1 lookup
      have full := hasSubscriber_of_verdict source (distinct.2.mem member) (by rw [pruned])
      rw [pruned] at full
      cases same
      exact full
  | cons next rest inductionHypothesis =>
    obtain ⟨branch, lookup, onward⟩ := nodeAt_cons.mp found
    cases node with
    | mk child subscriber =>
      obtain ⟨source, member, pruned⟩ := get_dfsEmptyAndRemove distinct.1 lookup
      have inside : source.dfsEmptyAndRemove.1.nodeAt (next :: rest) = some below := by
        rw [pruned]
        exact onward
      exact inductionHypothesis source (distinct.2.mem member) inside

/-- A node that leads to a subscriber is still there, with the cell it had. -/
theorem dfsEmptyAndRemove_kept {node below : Child T} (distinct : node.Distinct) {path : List Str}
    (found : node.nodeAt path = some below) (full : below.HasSubscriber) :
    ∃ after, node.dfsEmptyAndRemove.1.nodeAt path = some after ∧
      after.subscriber = below.subscriber := by
  have values := (pruned distinct).values
  obtain ⟨rest, bound⟩ := full
  rw [← valueAt_append found, ← values] at bound
  obtain ⟨after, afterFound⟩ := nodeAt_isSome bound
  refine ⟨after, afterFound, ?_⟩
  calc after.subscriber = node.dfsEmptyAndRemove.1.valueAt (path ++ []) :=
        (valueAt_append afterFound []).symm
    _ = node.valueAt (path ++ []) := values _
    _ = below.subscriber := valueAt_append found []

/-- A pruned node is reported and left as it was the first time. -/
theorem dfsEmptyAndRemove_idem (node : Child T) (distinct : node.Distinct) :
    node.dfsEmptyAndRemove.1.dfsEmptyAndRemove = node.dfsEmptyAndRemove := by
  induction node using induction with
  | mk child subscriber inductionHypothesis =>
    have again : (child.filterMap keep).filterMap keep = child.filterMap keep := by
      rw [List.filterMap_filterMap]
      refine List.filterMap_congr fun entry member => ?_
      have stable := inductionHypothesis entry member (distinct.2.mem member)
      cases kept : keep entry with
      | none => rfl
      | some left =>
        obtain ⟨verdict, rfl⟩ := keep_eq_some_iff.mp kept
        refine keep_eq_some_iff.mpr ⟨?_, ?_⟩
        · rw [stable, verdict]
        · rw [stable]
    have prunedNodup : (Assoc.keys (child.filterMap keep)).Nodup := by
      have pruned := (pruned distinct).distinct
      rw [dfsEmptyAndRemove_eq distinct.1] at pruned
      exact pruned.1
    rw [dfsEmptyAndRemove_eq distinct.1, dfsEmptyAndRemove_eq prunedNodup, again]

end Traversal

end Child

namespace Trie

variable {T : Type}

/-- The node at the end of a path; the empty path is the root. -/
def nodeAt (trie : Trie T) (path : List Str) : Option (Child T) :=
  trie.root.bind fun node => node.nodeAt path

/-- What `clean_branch` is to do: no node below the root without a subscriber in
its subtree, no node with one lost or changed, nothing left for a second call. -/
structure Cleaned (trie : Trie T) : Prop where
  full : ∀ path node, path ≠ [] → trie.cleanBranch.nodeAt path = some node → node.HasSubscriber
  kept : ∀ path node, trie.nodeAt path = some node → node.HasSubscriber →
    ∃ after, trie.cleanBranch.nodeAt path = some after ∧ after.subscriber = node.subscriber
  stable : trie.cleanBranch.cleanBranch = trie.cleanBranch

/-- Where no key repeats, `clean_branch` does what it is to do. -/
theorem Intact.cleaned {trie : Trie T} (intact : trie.Intact) : trie.Cleaned := by
  obtain ⟨root, present, distinct⟩ := intact
  have afterRoot : trie.cleanBranch.root = some root.dfsEmptyAndRemove.1 := by
    simp [cleanBranch, present]
  refine ⟨fun path node inner found => ?_, fun path node found full => ?_, ?_⟩
  · simp only [nodeAt, afterRoot, Option.bind_some] at found
    cases path with
    | nil => exact absurd rfl inner
    | cons part rest => exact Child.dfsEmptyAndRemove_full root distinct found
  · simp only [nodeAt, present, Option.bind_some] at found
    simp only [nodeAt, afterRoot, Option.bind_some]
    exact Child.dfsEmptyAndRemove_kept distinct found full
  · simp [cleanBranch, present, Child.dfsEmptyAndRemove_idem root distinct]

section Calls

variable [PartialEq T]

/-- A removal repeats no key, whatever the two equality operators make of the values. -/
theorem remove_intact {trie : Trie T} (intact : trie.Intact) (topic : Str) (value : T) :
    (trie.remove topic value).2.Intact := by
  obtain ⟨node, root, distinct⟩ := intact
  simp only [remove, get, root]
  cases found : node.get (parts topic) (Child.deleteSubscriber value) with
  | none => exact ⟨node, root, distinct⟩
  | some result =>
    obtain ⟨answer, after⟩ := result
    obtain ⟨_, _, _, afterDistinct, _⟩ := Child.get_delete_spec distinct found
    exact ⟨after, rfl, afterDistinct⟩

theorem call_intact {trie : Trie T} (intact : trie.Intact) (operation : Operation T) :
    ∃ reply after, trie.call operation = some (reply, after) ∧ after.Intact := by
  cases operation with
  | insert topic value =>
    obtain ⟨after, ran, afterIntact, _⟩ := insert_spec intact topic value
    exact ⟨_, after, by rw [call, ran]; rfl, afterIntact⟩
  | remove topic value => exact ⟨_, _, rfl, remove_intact intact topic value⟩
  | cleanBranch => exact ⟨_, _, rfl, (cleanBranch_spec intact).1⟩
  | getVal topic => exact ⟨_, trie, rfl, intact⟩

theorem run_intact {trie : Trie T} (intact : trie.Intact) (operations : List (Operation T)) :
    ∃ replies after, trie.run operations = some (replies, after) ∧ after.Intact := by
  induction operations generalizing trie with
  | nil => exact ⟨[], trie, rfl, intact⟩
  | cons operation rest inductionHypothesis =>
    obtain ⟨reply, middle, called, middleIntact⟩ := call_intact intact operation
    obtain ⟨replies, after, ran, afterIntact⟩ := inductionHypothesis middleIntact
    exact ⟨reply :: replies, after, by simp [run, called, ran], afterIntact⟩

/-- Every sequence of calls on a new trie ends, and in the trie it ends in
`clean_branch` drops the branches without a subscriber and nothing else. -/
theorem clean_branch_exact (operations : List (Operation T)) :
    ∃ replies trie, (new : Trie T).run operations = some (replies, trie) ∧ trie.Cleaned := by
  obtain ⟨replies, trie, ran, intact⟩ := run_intact intact_new operations
  exact ⟨replies, trie, ran, intact.cleaned⟩

end Calls

end Trie
end Sipusu.Ds
