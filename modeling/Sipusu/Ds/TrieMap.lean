import Sipusu.Ds.Trie
import Sipusu.Foundation.PartialMap

/-!
# The trie as a map from topics

`Child.valueAt` reads the subscriber at the end of a path of levels. Every trie
operation is described by what it does to `valueAt` on all paths at once, and a
topic's path determines the topic, so a run of the trie is a run of a partial
map.
-/

namespace Sipusu.Ds

open Sipusu.Foundation

namespace Child

variable {T : Type}

/-- The subscriber at the end of a path below a node. -/
def valueAt : Child T → List Str → Option T
  | node, [] => node.subscriber
  | node, part :: rest =>
      match Assoc.get part node.child with
      | some branch => branch.valueAt rest
      | none => none

mutual

/-- No node holds two branches under one key. -/
def Distinct : Child T → Prop
  | .mk child _ => (Assoc.keys child).Nodup ∧ DistinctAll child

/-- `Distinct` for every listed branch. -/
def DistinctAll : List (Str × Child T) → Prop
  | [] => True
  | (_, node) :: rest => Distinct node ∧ DistinctAll rest

end

@[simp] theorem valueAt_nil (node : Child T) : node.valueAt [] = node.subscriber := rfl

theorem valueAt_cons_some {node branch : Child T} {part : Str}
    (found : Assoc.get part node.child = some branch) (rest : List Str) :
    node.valueAt (part :: rest) = branch.valueAt rest := by
  simp [valueAt, found]

theorem valueAt_cons_none {node : Child T} {part : Str}
    (missing : Assoc.get part node.child = none) (rest : List Str) :
    node.valueAt (part :: rest) = none := by
  simp [valueAt, missing]

@[simp] theorem valueAt_new (path : List Str) : (new : Child T).valueAt path = none := by
  cases path <;> rfl

theorem distinct_iff {node : Child T} :
    node.Distinct ↔ (Assoc.keys node.child).Nodup ∧ DistinctAll node.child := by
  cases node
  simp [Distinct]

theorem distinct_new : (new : Child T).Distinct := by
  simp [new, Distinct, DistinctAll, Assoc.keys]

section Branches

theorem DistinctAll.get {part : Str} {branch : Child T} {child : List (Str × Child T)}
    (distinct : DistinctAll child) (found : Assoc.get part child = some branch) :
    branch.Distinct := by
  induction child with
  | nil => cases found
  | cons entry rest inductionHypothesis =>
    obtain ⟨key, node⟩ := entry
    simp only [DistinctAll] at distinct
    rw [Assoc.get_cons] at found
    split at found
    · cases found
      exact distinct.1
    · exact inductionHypothesis distinct.2 found

theorem DistinctAll.set {part : Str} {branch : Child T} {child : List (Str × Child T)}
    (distinct : DistinctAll child) (branchDistinct : branch.Distinct) :
    DistinctAll (Assoc.set part branch child) := by
  induction child with
  | nil => trivial
  | cons entry rest inductionHypothesis =>
    obtain ⟨key, node⟩ := entry
    simp only [DistinctAll] at distinct
    by_cases same : key = part
    · simpa [Assoc.set, same, DistinctAll] using ⟨branchDistinct, distinct.2⟩
    · simpa [Assoc.set, same, DistinctAll] using ⟨distinct.1, inductionHypothesis distinct.2⟩

theorem DistinctAll.remove {part : Str} {child : List (Str × Child T)}
    (distinct : DistinctAll child) : DistinctAll (Assoc.remove part child) := by
  induction child with
  | nil => trivial
  | cons entry rest inductionHypothesis =>
    obtain ⟨key, node⟩ := entry
    simp only [DistinctAll] at distinct
    rw [Assoc.remove_cons]
    split
    · exact inductionHypothesis distinct.2
    · exact ⟨distinct.1, inductionHypothesis distinct.2⟩

theorem Distinct.branch {node branch : Child T} {part : Str} (distinct : node.Distinct)
    (found : Assoc.get part node.child = some branch) : branch.Distinct :=
  (distinct_iff.mp distinct).2.get found

theorem Distinct.setBranch {node branch : Child T} {part : Str} (distinct : node.Distinct)
    (branchDistinct : branch.Distinct) : (node.setBranch part branch).Distinct := by
  rw [distinct_iff] at distinct ⊢
  exact ⟨by simpa [Child.setBranch] using distinct.1, distinct.2.set branchDistinct⟩

theorem Distinct.createBranch {node : Child T} {part : Str} (distinct : node.Distinct) :
    (node.createBranch part).Distinct := by
  rw [distinct_iff] at distinct ⊢
  exact ⟨Assoc.keys_insert_nodup distinct.1, distinct_new, distinct.2.remove⟩

/-- Writing a branch back rebinds the paths through it and no others. -/
theorem valueAt_setBranch {node branch old : Child T} {part : Str}
    (found : Assoc.get part node.child = some old) (path : List Str) :
    (node.setBranch part branch).valueAt path =
      match path with
      | [] => node.subscriber
      | key :: rest => if key = part then branch.valueAt rest else node.valueAt (key :: rest) := by
  cases path with
  | nil => rfl
  | cons key rest =>
    by_cases same : key = part
    · subst same
      simp [valueAt, Child.setBranch, Assoc.get_set_self found]
    · simp [valueAt, Child.setBranch, same, Assoc.get_set_ne same]

/-- A fresh branch under a free key binds nothing. -/
theorem valueAt_createBranch {node : Child T} {part : Str}
    (missing : Assoc.get part node.child = none) (path : List Str) :
    (node.createBranch part).valueAt path = node.valueAt path := by
  cases path with
  | nil => rfl
  | cons key rest =>
    by_cases same : key = part
    · subst same
      have fresh : Assoc.get key (node.createBranch key).child = some new := by
        simp [createBranch]
      rw [valueAt_cons_none missing, valueAt_cons_some fresh, valueAt_new]
    · simp [valueAt, Child.createBranch, Assoc.get_insert_ne same]

end Branches

/-- More turns change nothing once the loop has ended. -/
theorem insertLoop_mono {fuel more : Nat} {node : Child T} {parts : List Str} {value : T}
    {result : Bool × Child T} (ended : node.insertLoop fuel parts value = some result)
    (bound : fuel ≤ more) : node.insertLoop more parts value = some result := by
  induction fuel generalizing more node parts result with
  | zero => cases ended
  | succ fuel inductionHypothesis =>
    obtain ⟨more, rfl⟩ : ∃ turns, more = turns + 1 := ⟨more - 1, by omega⟩
    have left : fuel ≤ more := by omega
    cases parts with
    | nil => exact ended
    | cons part rest =>
      simp only [insertLoop] at ended ⊢
      cases found : Assoc.get part node.child with
      | none =>
        simp only [found] at ended
        exact inductionHypothesis ended left
      | some branch =>
        simp only [found, Option.map_eq_some_iff] at ended ⊢
        obtain ⟨below, ran, same⟩ := ended
        exact ⟨below, inductionHypothesis ran left, same⟩

/-- The insertion loop ends within two turns a level. It stores the value exactly
when the path is unbound, and leaves every other path alone. -/
theorem insertLoop_spec {fuel : Nat} {node : Child T} {parts : List Str} (value : T)
    (enough : 2 * parts.length < fuel) (distinct : node.Distinct) :
    ∃ after, node.insertLoop fuel parts value = some ((node.valueAt parts).isNone, after) ∧
      after.Distinct ∧ ∀ path, after.valueAt path =
        if path = parts ∧ node.valueAt parts = none then some value else node.valueAt path := by
  induction parts generalizing fuel node with
  | nil =>
    obtain ⟨fuel, rfl⟩ : ∃ turns, fuel = turns + 1 := ⟨fuel - 1, by simp at enough; omega⟩
    cases node with
    | mk child subscriber =>
      cases subscriber with
      | none =>
        refine ⟨.mk child (some value), rfl, distinct, fun path => ?_⟩
        cases path <;> simp [valueAt]
      | some current => exact ⟨.mk child (some current), rfl, distinct, by simp [valueAt]⟩
  | cons part rest inductionHypothesis =>
    simp only [List.length_cons] at enough
    -- Descend into a branch that is there, whatever the node it was found in.
    have descend : ∀ {turns : Nat} {host branch : Child T}, host.Distinct →
        Assoc.get part host.child = some branch → 2 * rest.length < turns →
        ∃ after, host.insertLoop (turns + 1) (part :: rest) value =
            some ((host.valueAt (part :: rest)).isNone, after) ∧
          after.Distinct ∧ ∀ path, after.valueAt path =
            if path = part :: rest ∧ host.valueAt (part :: rest) = none then some value
            else host.valueAt path := by
      intro turns host branch hostDistinct found left
      obtain ⟨below, ran, belowDistinct, belowValues⟩ :=
        inductionHypothesis left (hostDistinct.branch found)
      refine ⟨host.setBranch part below, ?_, hostDistinct.setBranch belowDistinct, fun path => ?_⟩
      · simp [insertLoop, found, ran, valueAt_cons_some found]
      · rw [valueAt_setBranch found]
        cases path with
        | nil => simp
        | cons key tail =>
          by_cases same : key = part
          · subst same
            simp [belowValues, valueAt_cons_some found]
          · simp [same]
    obtain ⟨fuel, rfl⟩ : ∃ turns, fuel = turns + 2 := ⟨fuel - 2, by omega⟩
    cases found : Assoc.get part node.child with
    | some branch => exact descend distinct found (by omega)
    | none =>
      have fresh : Assoc.get part (node.createBranch part).child = some new := by
        simp [createBranch]
      have left : 2 * rest.length < fuel := by omega
      obtain ⟨after, ran, afterDistinct, afterValues⟩ := descend distinct.createBranch fresh left
      simp only [valueAt_createBranch found] at ran afterValues
      exact ⟨after, by simpa [insertLoop, found] using ran, afterDistinct, afterValues⟩

/-- `get` finds a node exactly where the path exists, and applies the callback there. -/
theorem get_spec {R : Type} {node : Child T} {parts : List Str} {f : Child T → R × Child T}
    {result : R} {after : Child T} (distinct : node.Distinct)
    (keeps : ∀ target : Child T, target.Distinct → (f target).2.Distinct)
    (frame : ∀ (target : Child T) (part : Str) (path : List Str),
      (f target).2.valueAt (part :: path) = target.valueAt (part :: path))
    (found : node.get parts f = some (result, after)) :
    ∃ target, node.valueAt parts = target.subscriber ∧ result = (f target).1 ∧
      after.Distinct ∧ ∀ path, after.valueAt path =
        if path = parts then (f target).2.subscriber else node.valueAt path := by
  induction parts generalizing node after with
  | nil =>
    simp only [get, Option.some.injEq] at found
    refine ⟨node, rfl, by rw [found], ?_, fun path => ?_⟩
    · simpa [found] using keeps node distinct
    · cases path with
      | nil => simp [found]
      | cons key tail => simpa [found] using frame node key tail
  | cons part rest inductionHypothesis =>
    simp only [get] at found
    cases lookup : Assoc.get part node.child with
    | none => simp [lookup] at found
    | some branch =>
      simp only [lookup, Option.map_eq_some_iff, Prod.mk.injEq] at found
      obtain ⟨⟨_, below⟩, inner, rfl, rfl⟩ := found
      obtain ⟨target, bound, same, belowDistinct, belowValues⟩ :=
        inductionHypothesis (distinct.branch lookup) inner
      refine ⟨target, by rw [valueAt_cons_some lookup, bound], same,
        distinct.setBranch belowDistinct, fun path => ?_⟩
      rw [valueAt_setBranch lookup]
      cases path with
      | nil => simp
      | cons key tail =>
        by_cases equal : key = part
        · subst equal
          simp [belowValues, valueAt_cons_some lookup]
        · simp [equal]

/-- Where `get` finds nothing, nothing is bound. -/
theorem valueAt_of_get_none {R : Type} {node : Child T} {parts : List Str}
    {f : Child T → R × Child T} (missing : node.get parts f = none) :
    node.valueAt parts = none := by
  induction parts generalizing node with
  | nil => cases missing
  | cons part rest inductionHypothesis =>
    simp only [get] at missing
    cases lookup : Assoc.get part node.child with
    | none => exact valueAt_cons_none lookup rest
    | some branch =>
      simp only [lookup, Option.map_eq_none_iff] at missing
      rw [valueAt_cons_some lookup]
      exact inductionHypothesis missing

section Deletion

variable [PartialEq T]

theorem deleteSubscriber_fst [LawfulPartialEq T] (value : T) (node : Child T) :
    (deleteSubscriber value node).1 =
      match node.subscriber with
      | none => false
      | some current => PartialEq.eq current value := by
  unfold deleteSubscriber
  cases node.subscriber with
  | none => rfl
  | some current =>
    simp only [LawfulPartialEq.ne_eq_not_eq]
    cases PartialEq.eq current value <;> rfl

/-- Deletion either leaves the node alone or empties its cell. -/
theorem deleteSubscriber_cases (value : T) (node : Child T) :
    deleteSubscriber value node = (false, node) ∨
      deleteSubscriber value node = (true, .mk node.child none) := by
  unfold deleteSubscriber
  cases node.subscriber with
  | none => exact .inl rfl
  | some current =>
    by_cases different : PartialEq.ne current value = true
    · exact .inl (if_pos different)
    · exact .inr (if_neg different)

theorem deleteSubscriber_snd_subscriber (value : T) (node : Child T) :
    (deleteSubscriber value node).2.subscriber =
      if (deleteSubscriber value node).1 = true then none else node.subscriber := by
  rcases deleteSubscriber_cases value node with same | emptied
  · simp [same]
  · simp [emptied]

theorem valueAt_deleteSubscriber {value : T} (node : Child T) (part : Str) (path : List Str) :
    (deleteSubscriber value node).2.valueAt (part :: path) = node.valueAt (part :: path) := by
  rcases deleteSubscriber_cases value node with same | emptied
  · rw [same]
  · rw [emptied]
    rfl

theorem deleteSubscriber_distinct {value : T} {node : Child T} (distinct : node.Distinct) :
    (deleteSubscriber value node).2.Distinct := by
  rcases deleteSubscriber_cases value node with same | emptied
  · rw [same]
    exact distinct
  · rw [distinct_iff] at distinct ⊢
    rw [emptied]
    exact distinct

/-- `get_spec` where what is done at the end of the path is a deletion. -/
theorem get_delete_spec {node after : Child T} {parts : List Str} {value : T} {answer : Bool}
    (distinct : node.Distinct)
    (found : node.get parts (deleteSubscriber value) = some (answer, after)) :
    ∃ target, node.valueAt parts = target.subscriber ∧
      answer = (deleteSubscriber value target).1 ∧ after.Distinct ∧
      ∀ path, after.valueAt path =
        if path = parts then (deleteSubscriber value target).2.subscriber
        else node.valueAt path :=
  get_spec distinct (fun _ kept => deleteSubscriber_distinct kept)
    (fun target part path => valueAt_deleteSubscriber target part path) found

end Deletion

/-- What `dfs_empty_and_remove` may make of a node: the same bindings, and the
verdict "empty" only on a node that binds nothing. -/
structure Pruned (before : Child T) (result : Child T × Bool) : Prop where
  distinct : result.1.Distinct
  values : ∀ path, result.1.valueAt path = before.valueAt path
  empty : result.2 = true → ∀ path, before.valueAt path = none

/-- What the loop over the children makes of a branch map. -/
structure PrunedAll (before : List (Str × Child T))
    (result : List (Str × Child T) × List Str) : Prop where
  keys : Assoc.keys result.1 = Assoc.keys before
  distinct : DistinctAll result.1
  emptyKeys : ∀ key ∈ result.2, key ∈ Assoc.keys before
  visited : ∀ {key node}, Assoc.get key before = some node →
    ∃ pruned, Assoc.get key result.1 = some pruned.1 ∧ (key ∈ result.2 ↔ pruned.2 = true) ∧
      Pruned node pruned

theorem DistinctAll.foldl_remove {child : List (Str × Child T)} (removed : List Str)
    (distinct : DistinctAll child) :
    DistinctAll (removed.foldl (fun child key => Assoc.remove key child) child) := by
  induction removed generalizing child with
  | nil => exact distinct
  | cons key rest inductionHypothesis => exact inductionHypothesis distinct.remove

/-- One node, from what its children became. -/
theorem Pruned.of_children {child : List (Str × Child T)} {subscriber : Option T}
    (nodup : (Assoc.keys child).Nodup) (children : PrunedAll child (dfsChildren child)) :
    Pruned (.mk child subscriber) (Child.mk child subscriber).dfsEmptyAndRemove := by
  have values : ∀ path, (Child.mk child subscriber).dfsEmptyAndRemove.1.valueAt path =
      (Child.mk child subscriber).valueAt path := by
    intro path
    cases path with
    | nil => simp [dfsEmptyAndRemove]
    | cons key rest =>
      simp only [dfsEmptyAndRemove, valueAt, child_mk, Assoc.get_foldl_remove]
      cases found : Assoc.get key child with
      | none =>
        have missing : Assoc.get key (dfsChildren child).1 = none := by
          rw [Assoc.get_eq_none_iff, children.keys, ← Assoc.get_eq_none_iff]
          exact found
        simp [missing]
      | some branch =>
        obtain ⟨pruned, kept, dropped, spec⟩ := children.visited found
        by_cases verdict : pruned.2 = true
        · simp [dropped.mpr verdict, spec.empty verdict]
        · simp [dropped, verdict, kept, spec.values]
  refine ⟨?_, values, fun verdict path => ?_⟩
  · rw [distinct_iff]
    simp only [dfsEmptyAndRemove, child_mk]
    exact ⟨Assoc.keys_foldl_remove_nodup (children.keys ▸ nodup),
      children.distinct.foldl_remove _⟩
  · rw [← values path]
    simp only [dfsEmptyAndRemove, Bool.and_eq_true, List.isEmpty_iff, Option.isNone_iff_eq_none]
      at verdict ⊢
    rw [verdict.1, verdict.2]
    cases path <;> rfl

mutual

/-- Pruning keeps every binding below a node. -/
theorem pruned : ∀ {node : Child T}, node.Distinct → Pruned node node.dfsEmptyAndRemove
  | .mk _ _, distinct => .of_children distinct.1 (prunedAll distinct.1 distinct.2)

/-- Pruning keeps every binding below a list of branches. -/
theorem prunedAll : ∀ {child : List (Str × Child T)}, (Assoc.keys child).Nodup →
    DistinctAll child → PrunedAll child (dfsChildren child)
  | [], _, _ => ⟨rfl, trivial, fun _ member => member, fun found => nomatch found⟩
  | (name, node) :: rest, nodup, distinct => by
    have head := pruned distinct.1
    have tail := prunedAll (List.nodup_cons.mp nodup).2 distinct.2
    have fresh : name ∉ Assoc.keys rest := (List.nodup_cons.mp nodup).1
    have listed : ∀ key, key ∈ (dfsChildren ((name, node) :: rest)).2 ↔
        (key = name ∧ node.dfsEmptyAndRemove.2 = true) ∨ key ∈ (dfsChildren rest).2 := by
      intro key
      by_cases verdict : node.dfsEmptyAndRemove.2 = true
      · simp [dfsChildren, verdict]
      · simp [dfsChildren, verdict]
    refine ⟨?_, ⟨head.distinct, tail.distinct⟩, fun key member => ?_, fun {key other} found => ?_⟩
    · simpa [dfsChildren, Assoc.keys] using tail.keys
    · rcases (listed key).mp member with ⟨rfl, _⟩ | later
      · exact List.mem_cons_self
      · exact List.mem_cons_of_mem _ (tail.emptyKeys key later)
    · rw [Assoc.get_cons] at found
      by_cases same : name = key
      · subst same
        simp only [if_true, Option.some.injEq] at found
        subst found
        have absent : name ∉ (dfsChildren rest).2 := fun member => fresh (tail.emptyKeys _ member)
        exact ⟨node.dfsEmptyAndRemove, by simp [dfsChildren, Assoc.get_cons],
          by simp [listed, absent], head⟩
      · simp only [same, if_false] at found
        obtain ⟨pruned, kept, dropped, spec⟩ := tail.visited found
        refine ⟨pruned, by simpa [dfsChildren, Assoc.get_cons, same] using kept, ?_, spec⟩
        rw [listed, ← dropped]
        simp [Ne.symm same]

end

end Child

/-- The calls a client of the trie can make. -/
inductive Operation (T : Type) where
  | insert (topic : Str) (value : T)
  | remove (topic : Str) (value : T)
  | cleanBranch
  | getVal (topic : Str)

/-- What the calls answer. -/
inductive Reply (T : Type) where
  | inserted (stored : Bool)
  | removed (answer : Option Bool)
  | cleaned
  | found (value : Option T)
deriving DecidableEq

/-- Two answers agree if they are equal, except that a removal that removes
nothing may say so as `None` or as `Some(false)`. -/
def Reply.Agrees {T : Type} : Reply T → Reply T → Prop
  | .removed left, .removed right => left = some true ↔ right = some true
  | left, right => left = right

namespace Trie

variable {T : Type}

/-- The root is there, and no node below it repeats a key. -/
def Intact (trie : Trie T) : Prop := ∃ node, trie.root = some node ∧ node.Distinct

theorem intact_new : (new : Trie T).Intact := ⟨.new, rfl, Child.distinct_new⟩

theorem getVal_eq {trie : Trie T} {node : Child T} (root : trie.root = some node)
    (distinct : node.Distinct) (topic : Str) :
    trie.getVal topic = node.valueAt (parts topic) := by
  simp only [getVal, get, root, Option.bind_map]
  cases found : node.get (parts topic) fun node => (node.getSubscriber, node) with
  | none => simp [Child.valueAt_of_get_none found]
  | some result =>
    obtain ⟨target, bound, same, _⟩ :=
      Child.get_spec distinct (fun _ kept => kept) (fun _ _ _ => rfl) found
    simp [bound, same, Child.getSubscriber]

theorem parts_injective : Function.Injective parts := Str.split_injective separator (by decide)

/-- The insertion loop ends within the turns `insert` gives it, and any further
turns would change nothing. -/
theorem insertWithin_spec {trie : Trie T} (intact : trie.Intact) (topic : Str) (value : T) :
    ∃ after, after.Intact ∧
      after.getVal = (PartialMap.insertNew topic value trie.getVal).2 ∧
      ∀ fuel, 2 * (parts topic).length + 2 ≤ fuel →
        trie.insertWithin fuel topic value =
          some ((PartialMap.insertNew topic value trie.getVal).1, after) := by
  obtain ⟨node, root, distinct⟩ := intact
  have enough : 2 * (parts topic).length < 2 * (parts topic).length + 2 := by omega
  obtain ⟨after, ended, afterDistinct, afterValues⟩ :=
    Child.insertLoop_spec value enough distinct
  have answer : (PartialMap.insertNew topic value trie.getVal).1 =
      (node.valueAt (parts topic)).isNone := by
    rw [Bool.eq_iff_iff, PartialMap.insertNew_fst, getVal_eq root distinct]
    simp
  refine ⟨⟨some after⟩, ⟨after, rfl, afterDistinct⟩, ?_, fun fuel bound => ?_⟩
  · funext other
    rw [PartialMap.insertNew_snd, getVal_eq rfl afterDistinct, afterValues,
      getVal_eq root distinct, getVal_eq root distinct]
    simp [parts_injective.eq_iff]
  · obtain ⟨turns, rfl⟩ : ∃ turns, fuel = turns + 1 := ⟨fuel - 1, by omega⟩
    simp only [insertWithin, root, Child.insertLoop_mono ended bound, answer, Option.map_some]

theorem insert_spec {trie : Trie T} (intact : trie.Intact) (topic : Str) (value : T) :
    ∃ after, trie.insert topic value =
        some ((PartialMap.insertNew topic value trie.getVal).1, after) ∧ after.Intact ∧
      after.getVal = (PartialMap.insertNew topic value trie.getVal).2 := by
  obtain ⟨after, afterIntact, values, ended⟩ := insertWithin_spec intact topic value
  exact ⟨after, ended _ (Nat.le_refl _), afterIntact, values⟩

theorem remove_spec [PartialEq T] [LawfulPartialEq T] {trie : Trie T} (intact : trie.Intact)
    (topic : Str) (value : T) :
    (trie.remove topic value).2.Intact ∧
      ((trie.remove topic value).1 = some true ↔
        (PartialMap.removeEqual topic value trie.getVal).1 = true) ∧
      (trie.remove topic value).2.getVal =
        (PartialMap.removeEqual topic value trie.getVal).2 := by
  obtain ⟨node, root, distinct⟩ := intact
  have bound := getVal_eq root distinct topic
  simp only [remove, get, root]
  cases found : node.get (parts topic) (Child.deleteSubscriber value) with
  | none =>
    have missing : trie.getVal topic = none := by rw [bound, Child.valueAt_of_get_none found]
    refine ⟨⟨node, root, distinct⟩, ?_, ?_⟩
    · simp [PartialMap.removeEqual, missing]
    · simp [PartialMap.removeEqual, missing]
  | some result =>
    obtain ⟨answer, after⟩ := result
    obtain ⟨target, atTopic, same, afterDistinct, values⟩ := Child.get_delete_spec distinct found
    have verdict : (PartialMap.removeEqual topic value trie.getVal).1 = answer := by
      rw [same, Child.deleteSubscriber_fst, ← atTopic, ← bound]
      exact PartialMap.removeEqual_fst
    refine ⟨⟨after, rfl, afterDistinct⟩, ?_, ?_⟩
    · simp [verdict]
    · funext other
      rw [PartialMap.removeEqual_snd, verdict]
      simp only [Option.map_some]
      rw [getVal_eq rfl afterDistinct, values, getVal_eq root distinct other,
        Child.deleteSubscriber_snd_subscriber, ← same]
      by_cases sameTopic : other = topic
      · subst sameTopic
        simp [atTopic]
      · simp [sameTopic, parts_injective.ne sameTopic]

theorem cleanBranch_spec {trie : Trie T} (intact : trie.Intact) :
    trie.cleanBranch.Intact ∧ trie.cleanBranch.getVal = trie.getVal := by
  obtain ⟨node, root, distinct⟩ := intact
  have pruned := Child.pruned distinct
  have newRoot : trie.cleanBranch.root = some node.dfsEmptyAndRemove.1 := by
    simp [cleanBranch, root]
  refine ⟨⟨_, newRoot, pruned.distinct⟩, ?_⟩
  funext topic
  rw [getVal_eq newRoot pruned.distinct, pruned.values, getVal_eq root distinct]

variable [PartialEq T]

/-- One call on the trie; `none` would be an insertion loop that does not end. -/
def call (trie : Trie T) : Operation T → Option (Reply T × Trie T)
  | .insert topic value =>
      (trie.insert topic value).map fun result => (.inserted result.1, result.2)
  | .remove topic value =>
      let result := trie.remove topic value
      some (.removed result.1, result.2)
  | .cleanBranch => some (.cleaned, trie.cleanBranch)
  | .getVal topic => some (.found (trie.getVal topic), trie)

/-- Calls in sequence, with their answers. -/
def run (trie : Trie T) : List (Operation T) → Option (List (Reply T) × Trie T)
  | [] => some ([], trie)
  | operation :: rest => do
      let (reply, trie) ← trie.call operation
      let (replies, trie) ← trie.run rest
      some (reply :: replies, trie)

/-- The same call on a partial map of topics. -/
def mapCall (map : PartialMap Str T) : Operation T → Reply T × PartialMap Str T
  | .insert topic value =>
      let result := map.insertNew topic value
      (.inserted result.1, result.2)
  | .remove topic value =>
      let result := map.removeEqual topic value
      (.removed (some result.1), result.2)
  | .cleanBranch => (.cleaned, map)
  | .getVal topic => (.found (map topic), map)

/-- The same calls on a partial map of topics. -/
def mapRun (map : PartialMap Str T) : List (Operation T) → List (Reply T) × PartialMap Str T
  | [] => ([], map)
  | operation :: rest =>
      let first := mapCall map operation
      let others := mapRun first.2 rest
      (first.1 :: others.1, others.2)

/-- One call refines the same call on the map the trie stands for. -/
theorem call_refines [LawfulPartialEq T] {trie : Trie T} (intact : trie.Intact)
    (operation : Operation T) :
    ∃ reply after, trie.call operation = some (reply, after) ∧ after.Intact ∧
      reply.Agrees (mapCall trie.getVal operation).1 ∧
      after.getVal = (mapCall trie.getVal operation).2 := by
  cases operation with
  | insert topic value =>
    obtain ⟨after, ran, afterIntact, values⟩ := insert_spec intact topic value
    exact ⟨.inserted (PartialMap.insertNew topic value trie.getVal).1, after, by simp [call, ran],
      afterIntact, rfl, values⟩
  | remove topic value =>
    obtain ⟨afterIntact, answer, values⟩ := remove_spec intact topic value
    refine ⟨_, _, rfl, afterIntact, ?_, values⟩
    simpa [Reply.Agrees, mapCall] using answer
  | cleanBranch =>
    obtain ⟨afterIntact, values⟩ := cleanBranch_spec intact
    exact ⟨_, _, rfl, afterIntact, rfl, values⟩
  | getVal topic => exact ⟨_, _, rfl, intact, rfl, rfl⟩

/-- Calls in sequence refine the same calls on the map the trie stands for. -/
theorem run_refines [LawfulPartialEq T] {trie : Trie T} (intact : trie.Intact)
    (operations : List (Operation T)) :
    ∃ replies after, trie.run operations = some (replies, after) ∧ after.Intact ∧
      List.Forall₂ Reply.Agrees replies (mapRun trie.getVal operations).1 ∧
      after.getVal = (mapRun trie.getVal operations).2 := by
  induction operations generalizing trie with
  | nil => exact ⟨[], trie, rfl, intact, .nil, rfl⟩
  | cons operation rest inductionHypothesis =>
    obtain ⟨reply, middle, called, middleIntact, agrees, values⟩ := call_refines intact operation
    obtain ⟨replies, after, ran, afterIntact, allAgree, finalValues⟩ :=
      inductionHypothesis middleIntact
    rw [values] at allAgree finalValues
    exact ⟨reply :: replies, after, by simp [run, called, ran], afterIntact,
      .cons agrees allAgree, finalValues⟩

/-- A trie is a partial map of topics: every sequence of calls answers as the map
does and leaves the same bindings, and the insertion loop always ends. -/
theorem trie_refines_map [LawfulPartialEq T] (operations : List (Operation T)) :
    ∃ replies trie, (new : Trie T).run operations = some (replies, trie) ∧
      List.Forall₂ Reply.Agrees replies (mapRun PartialMap.empty operations).1 ∧
      trie.getVal = (mapRun PartialMap.empty operations).2 ∧
      ∀ topic value, ∃ answer, ∀ fuel, 2 * (parts topic).length + 2 ≤ fuel →
        trie.insertWithin fuel topic value = some answer := by
  have start : (new : Trie T).getVal = PartialMap.empty := by
    funext topic
    exact (getVal_eq rfl Child.distinct_new topic).trans (Child.valueAt_new _)
  obtain ⟨replies, trie, ran, intact, agree, values⟩ := run_refines intact_new operations
  rw [start] at agree values
  refine ⟨replies, trie, ran, agree, values, fun topic value => ?_⟩
  obtain ⟨after, _, _, ended⟩ := insertWithin_spec intact topic value
  exact ⟨_, ended⟩

/-- Topics with an empty level and a topic that is a prefix of another one. -/
theorem trie_refines_map_nested :
    let outer : Str := ⟨[0x61], by decide⟩
    let inner : Str := ⟨[0x61, 0x2F, 0x2F, 0x62], by decide⟩
    let operations : List (Operation Nat) :=
      [.insert inner 1, .insert outer 2, .insert inner 3, .remove outer 1, .remove outer 2,
        .cleanBranch, .getVal inner, .getVal outer]
    ((new : Trie Nat).run operations).map Prod.fst =
        some [.inserted true, .inserted true, .inserted false, .removed (some false),
          .removed (some true), .cleaned, .found (some 1), .found none] ∧
      ∃ replies trie, (new : Trie Nat).run operations = some (replies, trie) ∧
        List.Forall₂ Reply.Agrees replies (mapRun PartialMap.empty operations).1 ∧
        trie.getVal = (mapRun PartialMap.empty operations).2 ∧
        ∀ topic value, ∃ answer, ∀ fuel, 2 * (parts topic).length + 2 ≤ fuel →
          trie.insertWithin fuel topic value = some answer := by
  intro outer inner operations
  exact ⟨by decide, trie_refines_map operations⟩

end Trie
end Sipusu.Ds
