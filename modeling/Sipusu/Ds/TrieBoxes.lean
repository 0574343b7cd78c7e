import Sipusu.Ds.CleanBranch
import Sipusu.Foundation.Runs

/-!
# The boxes of the trie

`insert` boxes the value of a subscriber. The box is freed when its subscriber is deleted or
when the trie is dropped, and never when the insertion was refused. Values stand for their
boxes, so a trie of values that are all different is a trie of boxes.
-/

namespace Sipusu.Ds

open Sipusu.Foundation

namespace Child

variable {T : Type}

mutual

/-- The boxed subscribers of a subtree, in the order of `dfs_drop`. -/
def subscribers : Child T → List T
  | .mk child subscriber => subscribersAll child ++ subscriber.toList

/-- Those of the listed branches. -/
def subscribersAll : List (Str × Child T) → List T
  | [] => []
  | (_, node) :: rest => subscribers node ++ subscribersAll rest

end

theorem subscribersAll_eq_flatMap (child : List (Str × Child T)) :
    subscribersAll child = child.flatMap fun entry => entry.2.subscribers := by
  induction child with
  | nil => rfl
  | cons entry rest inductionHypothesis =>
    rw [List.flatMap_cons, ← inductionHypothesis, subscribersAll]

@[simp] theorem subscribers_new : (new : Child T).subscribers = [] := rfl

/-- A fresh branch has no subscriber. -/
theorem subscribers_createBranch {node : Child T} {part : Str}
    (missing : Assoc.get part node.child = none) :
    (node.createBranch part).subscribers = node.subscribers := by
  cases node with
  | mk child subscriber =>
    simp only [createBranch, child_mk, subscriber_mk, subscribers, Assoc.insert, subscribersAll,
      subscribers_new, List.nil_append]
    rw [Assoc.remove_of_get_none (show Assoc.get part child = none from missing)]

/-- What a branch gains and loses, the node above it gains and loses. -/
theorem subscribers_setBranch {node branch old : Child T} {part : Str} {gained lost : List T}
    (found : Assoc.get part node.child = some old)
    (changed : (branch.subscribers ++ lost).Perm (gained ++ old.subscribers)) :
    ((node.setBranch part branch).subscribers ++ lost).Perm (gained ++ node.subscribers) := by
  cases node with
  | mk child subscriber =>
    rw [child_mk] at found
    obtain ⟨before, after, split, overwritten⟩ := Assoc.get_split found
    simp only [setBranch, child_mk, subscriber_mk, subscribers, subscribersAll_eq_flatMap,
      overwritten]
    simp only [split, List.flatMap_append, List.flatMap_cons]
    classical
    rw [List.perm_iff_count] at changed ⊢
    intro value
    have own := changed value
    simp only [List.count_append] at own ⊢
    omega

/-- The box of an insertion is in the trie when it is stored, and nowhere otherwise. -/
theorem subscribers_insertLoop {fuel : Nat} {node after : Child T} {parts : List Str} {value : T}
    {stored : Bool} (ended : node.insertLoop fuel parts value = some (stored, after)) :
    (after.subscribers ++ (if stored then [] else [value])).Perm (value :: node.subscribers) := by
  induction fuel generalizing node after parts with
  | zero => cases ended
  | succ fuel inductionHypothesis =>
    cases parts with
    | nil =>
      cases node with
      | mk child subscriber =>
        cases subscriber with
        | none =>
          obtain ⟨rfl, rfl⟩ := Prod.mk.inj (Option.some.inj ended)
          simp [subscribers]
        | some current =>
          obtain ⟨rfl, rfl⟩ := Prod.mk.inj (Option.some.inj ended)
          exact List.perm_append_singleton value _
    | cons part rest =>
      simp only [insertLoop] at ended
      cases found : Assoc.get part node.child with
      | none =>
        simp only [found] at ended
        rw [← subscribers_createBranch found]
        exact inductionHypothesis ended
      | some branch =>
        simp only [found, Option.map_eq_some_iff, Prod.mk.injEq] at ended
        obtain ⟨⟨answer, below⟩, ran, rfl, rfl⟩ := ended
        have gained : (below.subscribers ++ if answer then [] else [value]).Perm
            ([value] ++ branch.subscribers) := inductionHypothesis ran
        exact subscribers_setBranch found gained

section Deletion

variable [PartialEq T]

/-- The box that `delete_subscriber` frees. -/
def freedBox (value : T) (node : Child T) : Option T :=
  if (node.deleteSubscriber value).1 then node.subscriber else none

/-- `delete_subscriber`, with the box that it frees. -/
def deleteBox (value : T) (node : Child T) : Option T × Child T :=
  (node.freedBox value, (node.deleteSubscriber value).2)

theorem subscribers_deleteBox (value : T) (node : Child T) :
    ((node.deleteBox value).2.subscribers ++ (node.deleteBox value).1.toList) = node.subscribers := by
  cases node with
  | mk child subscriber =>
    rcases deleteSubscriber_cases value (.mk child subscriber) with same | emptied
    · simp [deleteBox, freedBox, same]
    · simp [deleteBox, freedBox, emptied, subscribers]

/-- What is freed at the end of a path is gone from the trie, and nothing else. -/
theorem subscribers_get {node after : Child T} {parts : List Str} {value : T} {freed : Option T}
    (found : node.get parts (deleteBox value) = some (freed, after)) :
    (after.subscribers ++ freed.toList).Perm node.subscribers := by
  induction parts generalizing node after with
  | nil =>
    have same := Option.some.inj found
    rw [← subscribers_deleteBox value node, same]
  | cons part rest inductionHypothesis =>
    simp only [get] at found
    cases lookup : Assoc.get part node.child with
    | none => simp [lookup] at found
    | some branch =>
      simp only [lookup, Option.map_eq_some_iff, Prod.mk.injEq] at found
      obtain ⟨⟨box, below⟩, inner, rfl, rfl⟩ := found
      have lost : (below.subscribers ++ box.toList).Perm ([] ++ branch.subscribers) :=
        inductionHypothesis inner
      exact subscribers_setBranch lookup lost

/-- Looking at the box leaves the same trie. -/
theorem get_deleteBox (node : Child T) (parts : List Str) (value : T) :
    (node.get parts (deleteBox value)).map Prod.snd =
      (node.get parts (deleteSubscriber value)).map Prod.snd := by
  induction parts generalizing node with
  | nil => rfl
  | cons part rest inductionHypothesis =>
    simp only [get]
    cases Assoc.get part node.child with
    | none => rfl
    | some branch =>
      have below := congrArg (Option.map (node.setBranch part)) (inductionHypothesis branch)
      rw [Option.map_map, Option.map_map] at below
      rw [Option.map_map, Option.map_map]
      exact below

end Deletion

/-- `clean_branch` unlinks no subscriber, and reports a node that has none in its subtree. -/
theorem subscribers_dfsEmptyAndRemove (node : Child T) (distinct : node.Distinct) :
    node.dfsEmptyAndRemove.1.subscribers = node.subscribers ∧
      (node.dfsEmptyAndRemove.2 = true → node.subscribers = []) := by
  induction node using induction with
  | mk child subscriber inductionHypothesis =>
    have kept : subscribersAll (child.filterMap keep) = subscribersAll child := by
      rw [subscribersAll_eq_flatMap, subscribersAll_eq_flatMap]
      have below : ∀ entry ∈ child, (keep entry).toList.flatMap (fun entry => entry.2.subscribers) =
          entry.2.subscribers := by
        intro entry member
        obtain ⟨same, empty⟩ := inductionHypothesis entry member (distinct.2.mem member)
        rw [keep]
        split
        · exact (empty ‹_›).symm
        · simpa using same
      rw [List.filterMap_eq_flatMap_toList, List.flatMap_assoc]
      exact List.flatMap_congr below
    rw [dfsEmptyAndRemove_eq distinct.1]
    refine ⟨by rw [subscribers, subscribers, kept], fun empty => ?_⟩
    simp only [Bool.and_eq_true, List.isEmpty_iff, Option.isNone_iff_eq_none] at empty
    rw [subscribers, ← kept, empty.1, empty.2]
    rfl

section Dropping

variable [PartialEq T]

mutual

/-- `Trie::dfs_drop`, with the boxes that it frees. -/
def dfsDrop : Child T → Child T × List T
  | .mk child subscriber =>
      let visited := dfsDropChildren child
      let node : Child T := .mk visited.1 subscriber
      let deleted := match node.getSubscriber with
        | some sub => node.deleteBox sub
        | none => (none, node)
      (.mk ((Assoc.keys child).foldl (fun child key => Assoc.remove key child) deleted.2.child)
        deleted.2.subscriber, visited.2 ++ deleted.1.toList)

/-- Its loop over the children. All their keys are collected. -/
def dfsDropChildren : List (Str × Child T) → List (Str × Child T) × List T
  | [] => ([], [])
  | (key, node) :: rest =>
      let visited := dfsDrop node
      let others := dfsDropChildren rest
      ((key, visited.1) :: others.1, visited.2 ++ others.2)

end

/-- A subscriber that is not different from itself. -/
def Reflexive (value : T) : Bool := !PartialEq.ne value value

theorem dfsDropChildren_fst (child : List (Str × Child T)) :
    (dfsDropChildren child).1 = child.map fun entry => (entry.1, entry.2.dfsDrop.1) := by
  induction child with
  | nil => rfl
  | cons entry rest inductionHypothesis => simp [dfsDropChildren, inductionHypothesis]

theorem dfsDropChildren_snd (child : List (Str × Child T)) :
    (dfsDropChildren child).2 = child.flatMap fun entry => entry.2.dfsDrop.2 := by
  induction child with
  | nil => rfl
  | cons entry rest inductionHypothesis => simp [dfsDropChildren, inductionHypothesis]

/-- The drop frees every subscriber of the subtree that equals itself, and unlinks all
branches. -/
theorem dfsDrop_spec (node : Child T) :
    node.dfsDrop.2 = node.subscribers.filter Reflexive ∧ node.dfsDrop.1.child = [] := by
  induction node using induction with
  | mk child subscriber inductionHypothesis =>
    have below : (dfsDropChildren child).2 = (subscribersAll child).filter Reflexive := by
      rw [dfsDropChildren_snd, subscribersAll_eq_flatMap, List.filter_flatMap]
      exact List.flatMap_congr fun entry member => (inductionHypothesis entry member).1
    have unlinked : (Assoc.keys child).foldl (fun child key => Assoc.remove key child)
        (dfsDropChildren child).1 = [] := by
      rw [Assoc.foldl_remove_eq_filter, dfsDropChildren_fst, List.filter_eq_nil_iff]
      intro entry member
      obtain ⟨original, isBranch, rfl⟩ := List.mem_map.mp member
      have listed : original.1 ∈ Assoc.keys child := List.mem_map_of_mem isBranch
      rw [decide_eq_true_eq, not_not]
      exact listed
    cases subscriber with
    | none => exact ⟨by simp [dfsDrop, getSubscriber, below, subscribers], unlinked⟩
    | some sub =>
      cases different : PartialEq.ne sub sub with
      | true =>
        refine ⟨?_, ?_⟩
        · simp [dfsDrop, getSubscriber, deleteBox, freedBox, deleteSubscriber, different, below,
            subscribers, Reflexive]
        · simpa [dfsDrop, getSubscriber, deleteBox, deleteSubscriber, different] using unlinked
      | false =>
        refine ⟨?_, ?_⟩
        · simp [dfsDrop, getSubscriber, deleteBox, freedBox, deleteSubscriber, different, below,
            subscribers, Reflexive]
        · simpa [dfsDrop, getSubscriber, deleteBox, deleteSubscriber, different] using unlinked

end Dropping

end Child

namespace Trie

variable {T : Type} [PartialEq T]

/-- `Drop for Trie`, with the boxes that it frees. -/
def drop (trie : Trie T) : Trie T × List T :=
  match trie.root with
  | some node => (⟨some node.dfsDrop.1⟩, node.dfsDrop.2)
  | none => (trie, [])

/-- The boxed subscribers of the trie. -/
def subscribers (trie : Trie T) : List T := trie.root.toList.flatMap Child.subscribers

/-- All histories of the calls on a new trie. -/
def calls : System (Trie T) (Operation T) :=
  .ofStep new fun trie operation => (trie.call operation).map Prod.snd

/-- The boxes that a call makes. -/
def boxed : Operation T → List T
  | .insert _ value => [value]
  | _ => []

/-- The boxes that a call frees. -/
def freed (trie : Trie T) : Operation T → List T
  | .remove topic value => ((trie.get topic (Child.deleteBox value)).bind Prod.fst).toList
  | _ => []

/-- The boxes that a call loses. -/
def lost (trie : Trie T) : Operation T → List T
  | .insert topic value =>
      match trie.insert topic value with
      | some (false, _) => [value]
      | _ => []
  | _ => []

section Calls

variable {trie after : Trie T}

omit [PartialEq T] in
theorem subscribers_insertWithin {fuel : Nat} {topic : Str} {value : T} {stored : Bool}
    (intact : trie.Intact) (ended : trie.insertWithin fuel topic value = some (stored, after)) :
    (after.subscribers ++ (if stored then [] else [value])).Perm (value :: trie.subscribers) := by
  obtain ⟨node, root, _⟩ := intact
  cases fuel with
  | zero => cases ended
  | succ fuel =>
    simp only [insertWithin, root, Option.map_eq_some_iff, Prod.mk.injEq] at ended
    obtain ⟨⟨answer, below⟩, ran, rfl, rfl⟩ := ended
    simpa [subscribers, root] using Child.subscribers_insertLoop ran

theorem subscribers_remove (intact : trie.Intact) (topic : Str) (value : T) :
    ((trie.remove topic value).2.subscribers ++ trie.freed (.remove topic value)).Perm
      trie.subscribers := by
  obtain ⟨node, root, _⟩ := intact
  have same := Child.get_deleteBox node (parts topic) value
  simp only [remove, freed, get, root]
  cases found : node.get (parts topic) (Child.deleteBox value) with
  | none =>
    rw [found] at same
    rw [Option.map_eq_none_iff.mp same.symm]
    simp
  | some result =>
    obtain ⟨box, below⟩ := result
    rw [found] at same
    obtain ⟨⟨answer, other⟩, removed, rfl⟩ := Option.map_eq_some_iff.mp same.symm
    rw [removed]
    simpa [subscribers, root] using Child.subscribers_get found

/-- Every call accounts for its boxes. -/
theorem subscribers_call (intact : trie.Intact) {operation : Operation T}
    (called : (trie.call operation).map Prod.snd = some after) :
    (after.subscribers ++ (trie.freed operation ++ trie.lost operation)).Perm
      (boxed operation ++ trie.subscribers) := by
  obtain ⟨⟨reply, next⟩, ran, rfl⟩ := Option.map_eq_some_iff.mp called
  cases operation with
  | insert topic value =>
    obtain ⟨⟨stored, next⟩, ended, same⟩ := Option.map_eq_some_iff.mp ran
    cases same
    have accounted := subscribers_insertWithin intact ended
    cases stored with
    | true => simpa [freed, lost, ended, boxed] using accounted
    | false => simpa [freed, lost, ended, boxed] using accounted
  | remove topic value =>
    cases ran
    simpa [lost, boxed] using subscribers_remove intact topic value
  | cleanBranch =>
    cases ran
    obtain ⟨node, root, distinct⟩ := intact
    simp [freed, lost, boxed, subscribers, cleanBranch, root,
      (Child.subscribers_dfsEmptyAndRemove node distinct).1]
  | getVal topic =>
    cases ran
    simp [freed, lost, boxed]

theorem calls_intact : (calls (T := T)).Invariant Intact where
  initial valid := by
    rw [valid]
    exact intact_new
  preserved {trie operation next} intact stepped := by
    obtain ⟨reply, after, ran, still⟩ := call_intact intact operation
    have same : (trie.call operation).map Prod.snd = some next := stepped
    rw [ran] at same
    exact Option.some.inj same ▸ still

end Calls

section Histories

variable {trail : List (Trie T × Operation T)} {trie : Trie T}

/-- The boxes of a history are in the trie, freed or lost. -/
theorem subscribers_run (run : calls.Run trail trie) :
    (trail.flatMap fun entry => boxed entry.2).Perm
      (trie.subscribers ++ ((trail.flatMap fun entry => entry.1.freed entry.2) ++
        trail.flatMap fun entry => entry.1.lost entry.2)) := by
  induction run with
  | initial valid =>
    rw [valid]
    exact .nil
  | @step trail before operation after prior transition inductionHypothesis =>
    have accounted := subscribers_call (calls_intact.of_run prior) transition
    classical
    rw [List.perm_iff_count] at inductionHypothesis accounted ⊢
    intro value
    have earlier := inductionHypothesis value
    have now := accounted value
    simp only [List.flatMap_append, List.flatMap_singleton, List.count_append] at earlier now ⊢
    omega

/-- In every history of calls on a new trie that is then dropped, every boxed subscriber is
freed by the removal or the drop that unbinds it, and no other; the boxes that are never freed
are those of refused insertions and of subscribers that are different from themselves. No box
is freed twice, and no topic is bound afterwards. -/
theorem boxes_accounted (run : calls.Run trail trie) :
    let removed := trail.flatMap fun entry => entry.1.freed entry.2
    let refused := trail.flatMap fun entry => entry.1.lost entry.2
    (trail.flatMap fun entry => boxed entry.2).Perm
        (removed ++ trie.drop.2 ++
          (refused ++ trie.subscribers.filter fun value => !Child.Reflexive value)) ∧
      ((trail.flatMap fun entry => boxed entry.2).Nodup → (removed ++ trie.drop.2).Nodup) ∧
      ∀ topic, trie.drop.1.getVal topic = none := by
  intro removed refused
  obtain ⟨node, root, distinct⟩ := calls_intact.of_run run
  obtain ⟨dropped, unlinked⟩ := Child.dfsDrop_spec node
  have atDrop : trie.drop.2 = trie.subscribers.filter Child.Reflexive := by
    simp only [drop, root, subscribers, Option.toList_some, List.flatMap_singleton, dropped]
  have accounted : (trail.flatMap fun entry => boxed entry.2).Perm
      (removed ++ trie.drop.2 ++
        (refused ++ trie.subscribers.filter fun value => !Child.Reflexive value)) := by
    have all := subscribers_run run
    have parted := List.filter_append_perm Child.Reflexive trie.subscribers
    rw [atDrop]
    classical
    rw [List.perm_iff_count] at all parted ⊢
    intro value
    have first := all value
    have second := parted value
    simp only [List.count_append, removed, refused] at first second ⊢
    omega
  refine ⟨accounted, fun nodup => ?_, fun topic => ?_⟩
  · exact (accounted.nodup_iff.mp nodup).sublist (List.sublist_append_left _ _)
  · obtain ⟨part, rest, path⟩ := List.exists_cons_of_ne_nil
      (Str.split_ne_nil separator (by decide) topic)
    simp only [getVal, drop, root, get, parts, path, Child.get, unlinked, Assoc.get_nil,
      Option.map_none, Option.bind_none]

/-- Two topics are bound, a third insertion is refused, and one topic is removed. -/
theorem boxes_accounted_nested :
    let outer : Str := ⟨[0x61], by decide⟩
    let inner : Str := ⟨[0x61, 0x2F, 0x2F, 0x62], by decide⟩
    let operations : List (Operation Nat) :=
      [.insert inner 1, .insert outer 2, .insert inner 3, .remove outer 2]
    let trail := System.trailOf (fun trie operation => (trie.call operation).map Prod.snd)
      (new : Trie Nat) operations
    ∃ trie, calls.Run trail trie ∧ (trail.flatMap fun entry => entry.1.freed entry.2) = [2] ∧
      (trail.flatMap fun entry => entry.1.lost entry.2) = [3] ∧
      ([2] ++ trie.drop.2).Nodup ∧ trie.drop.1.getVal inner = none := by
  intro outer inner operations trail
  have executed : ∃ trie, System.execute (fun trie operation => (trie.call operation).map Prod.snd)
      (new : Trie Nat) operations = some trie := ⟨_, rfl⟩
  obtain ⟨trie, executed⟩ := executed
  have run : calls.Run trail trie := System.run_of_execute executed
  have removed : (trail.flatMap fun entry => entry.1.freed entry.2) = [2] := by decide
  have refused : (trail.flatMap fun entry => entry.1.lost entry.2) = [3] := by decide
  have boxes : (trail.flatMap fun entry => boxed entry.2) = [1, 2, 3] := by decide
  obtain ⟨_, once, unbound⟩ := boxes_accounted run
  rw [removed, boxes] at once
  exact ⟨trie, run, removed, refused, once (by decide), unbound inner⟩

end Histories

end Trie
end Sipusu.Ds
