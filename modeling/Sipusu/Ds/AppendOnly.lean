import Sipusu.Ds.LinkedList

/-!
# Appending alone

Interleavings of the message list in which nothing is taken. Nodes stay linked, so a task
that walks down the list stays on it, and the nodes from the head are those of the calls of
`append` that have returned, in the order of their linking.
-/

namespace Sipusu.Ds.LinkedList

open Sipusu.Foundation

variable {T : Type}

/-- The action is part of a call of `append`. -/
def Action.IsAppend : Action T → Prop
  | .append .. | .appendStep .. => True
  | .take | .takeStep => False

/-- The call that an action begins for a task, at the next free address. -/
def Action.callOf (task : Nat) (s : Machine T) : Action T → Option (Call T)
  | .append other val => if other = task then some (s.fresh, val) else none
  | _ => none

/-- The calls that a task has begun, in the order in which it began them. -/
def callsOf (task : Nat) (trail : List (Machine T × Action T)) : List (Call T) :=
  trail.filterMap fun entry => entry.2.callOf task entry.1

namespace Machine

/-- Where a task stands in its walk down the list. -/
def Placed (s : Machine T) : AppendPc T → Prop
  | .idle | .loadHead _ | .casHead _ => True
  | .reloadHead _ => s.head ≠ none
  | .testNext (some curr) _ | .casNext curr _ => Linked s.cell s.head curr
  | .follow curr _ => Linked s.cell s.head curr ∧
      ∃ value next, s.cell curr = some (value, some next)
  | .testNext none _ | .crashed => False

/-- What steps of appending tasks keep, beside `Intact`. -/
structure AppendOnly (s : Machine T) : Prop extends Intact s where
  untouched : s.taker = .idle
  untaken : s.taken = []
  placed : ∀ task, s.Placed (s.appender task)

section Steps

variable {s after : Machine T} {task : Nat}

/-- The nodes from the head are those of the calls that have returned. -/
theorem AppendOnly.chain (only : s.AppendOnly) : Chain s.cell s.head s.returned := by
  obtain ⟨path, chain, split⟩ := only.listed
  rw [only.untaken, List.nil_append] at split
  rw [split]
  exact chain

theorem appendOnly_new : (new : Machine T).AppendOnly where
  toIntact := intact_new
  untouched := rfl
  untaken := rfl
  placed _ := trivial

/-- What steps that only append leave as it is: the order of the calls that have returned,
filled links of linked nodes, and the taking task. -/
structure Grown (before after : Machine T) : Prop where
  returned : before.returned <+: after.returned
  filled : ∀ {address value next}, Linked before.cell before.head address →
    before.cell address = some (value, some next) → after.cell address = some (value, some next)
  taker : after.taker = before.taker
  taken : after.taken = before.taken

theorem Grown.goto (s : Machine T) (task : Nat) (pc : AppendPc T) : s.Grown (s.goto task pc) where
  returned := List.prefix_refl _
  filled _ found := found
  taker := rfl
  taken := rfl

/-- Nodes stay linked while the list of calls grows. -/
theorem Grown.linked (grown : s.Grown after) (before : Chain s.cell s.head s.returned)
    (chain : Chain after.cell after.head after.returned) {address : Addr}
    (linked : Linked s.cell s.head address) : Linked after.cell after.head address := by
  obtain ⟨call, listed, isAddress⟩ := List.mem_map.mp (before.linked_iff.mp linked)
  exact chain.linked_iff.mpr (List.mem_map.mpr ⟨call, grown.returned.subset listed, isAddress⟩)

/-- A task stays where it is while the memory grows. -/
theorem Grown.placed (grown : s.Grown after) (before : Chain s.cell s.head s.returned)
    (chain : Chain after.cell after.head after.returned) {pc : AppendPc T}
    (placed : s.Placed pc) : after.Placed pc := by
  cases pc with
  | idle | loadHead | casHead => trivial
  | reloadHead call =>
    obtain ⟨first, isFirst⟩ := Option.ne_none_iff_exists'.mp placed
    have linked : Linked s.cell s.head first := isFirst ▸ .here
    intro empty
    have still := grown.linked before chain linked
    rw [empty] at still
    cases still
  | testNext curr call =>
    cases curr with
    | none => exact placed.elim
    | some curr => exact grown.linked before chain placed
  | follow curr call =>
    obtain ⟨linked, value, next, found⟩ := placed
    exact ⟨grown.linked before chain linked, value, next, grown.filled linked found⟩
  | casNext curr call => exact grown.linked before chain placed
  | crashed => exact placed.elim

/-- What a step of an appending task can do: the task goes on with its call, or its node is
linked and its call returns. -/
inductive Advance (s : Machine T) (task : Nat) : Machine T → Prop where
  | moves {call pc} (running : (s.appender task).call = some call) (same : pc.call = some call)
      (placed : s.Placed pc) : Advance s task (s.goto task pc)
  | returns {call after} (running : (s.appender task).call = some call)
      (tasks : after.appender = Function.update s.appender task .idle)
      (calls : after.returned = s.returned ++ [call]) (fresh : after.fresh = s.fresh)
      (grown : s.Grown after) : Advance s task after

/-- A walk that starts again starts at a node. -/
theorem Placed.reload {call : Call T} (placed : s.Placed (.reloadHead call)) :
    s.Placed (.testNext s.head call) := by
  obtain ⟨first, isFirst⟩ := Option.ne_none_iff_exists'.mp placed
  have linked : Linked s.cell s.head first := isFirst ▸ .here
  rw [isFirst]
  exact linked

/-- A link that was seen filled leads to a linked node. -/
theorem Placed.follow {call : Call T} {curr : Addr} {node : AtmcNode T}
    (placed : s.Placed (.follow curr call)) (found : s.heap curr = some node) :
    s.Placed (.testNext node.next call) := by
  obtain ⟨linked, value, next, filled⟩ := placed
  have isNext : node.next = some next := by
    have same : s.cell curr = some (node.val, node.next) := by simp [cell, found]
    rw [same, Option.some.injEq, Prod.mk.injEq] at filled
    exact filled.2
  rw [isNext]
  exact linked.next filled

/-- A first node changes no cell. -/
theorem Grown.starts (s : Machine T) (task : Nat) (call : Call T) :
    s.Grown { s.returns task call with head := some call.1 } where
  returned := List.prefix_append _ _
  filled _ found := found
  taker := rfl
  taken := rfl

/-- A node behind the last one changes no filled link. -/
theorem Grown.extends {call : Call T} {curr : Addr} {node : AtmcNode T}
    (found : s.heap curr = some node) (last : node.next = none) :
    s.Grown ((s.returns task call).fill curr node call.1) where
  returned := List.prefix_append _ _
  filled := by
    intro address value next _ filled
    have different : address ≠ curr := by
      rintro rfl
      simp [cell, found, last] at filled
    simpa [cell, fill, Machine.returns, Machine.goto, different] using filled
  taker := rfl
  taken := rfl

/-- A task that is placed on the list never follows a null pointer. -/
theorem appendStep_advance (placed : s.Placed (s.appender task))
    (stepped : s.appendStep task = some after) : s.Advance task after := by
  have running {pc : AppendPc T} {call : Call T} (here : s.appender task = pc)
      (own : pc.call = some call) : (s.appender task).call = some call := by
    rw [here]
    exact own
  unfold appendStep at stepped
  cases pc : s.appender task with
  | idle => simp [pc] at stepped
  | crashed =>
    rw [pc] at placed
    exact placed.elim
  | loadHead call =>
    cases head : s.head with
    | none =>
      simp only [pc, head, Option.some.injEq] at stepped
      subst stepped
      exact .moves (running pc rfl) rfl trivial
    | some first =>
      simp only [pc, head, Option.some.injEq] at stepped
      subst stepped
      exact .moves (running pc rfl) rfl (by rw [Placed, head]; exact nofun)
  | casHead call =>
    cases head : s.head with
    | none =>
      simp only [pc, head, Option.some.injEq] at stepped
      subst stepped
      exact .returns (running pc rfl) rfl rfl rfl (.starts s task call)
    | some first =>
      simp only [pc, head, Option.some.injEq] at stepped
      subst stepped
      exact .moves (running pc rfl) rfl trivial
  | reloadHead call =>
    simp only [pc, Option.some.injEq] at stepped
    subst stepped
    rw [pc] at placed
    exact .moves (running pc rfl) rfl placed.reload
  | testNext curr call =>
    rw [pc] at placed
    cases curr with
    | none => exact placed.elim
    | some curr =>
      simp only [pc, Option.bind_eq_bind, Option.bind_eq_some_iff] at stepped
      obtain ⟨node, found, stepped⟩ := stepped
      cases link : node.next with
      | none =>
        simp only [link, Option.some.injEq] at stepped
        subst stepped
        exact .moves (running pc rfl) rfl placed
      | some next =>
        simp only [link, Option.some.injEq] at stepped
        subst stepped
        exact .moves (running pc rfl) rfl ⟨placed, node.val, next, by simp [cell, found, link]⟩
  | follow curr call =>
    simp only [pc, Option.bind_eq_bind, Option.bind_eq_some_iff, Option.some.injEq] at stepped
    obtain ⟨node, found, rfl⟩ := stepped
    rw [pc] at placed
    exact .moves (running pc rfl) rfl (placed.follow found)
  | casNext curr call =>
    simp only [pc, Option.bind_eq_bind, Option.bind_eq_some_iff] at stepped
    obtain ⟨node, found, stepped⟩ := stepped
    cases link : node.next with
    | none =>
      simp only [link, Option.some.injEq] at stepped
      subst stepped
      exact .returns (running pc rfl) rfl rfl rfl (.extends found link)
    | some next =>
      simp only [link, Option.some.injEq] at stepped
      subst stepped
      exact .moves (running pc rfl) rfl trivial

/-- The bookkeeping shared by all steps: the memory has grown, and the tasks stand where they
stood or where they were placed. -/
theorem AppendOnly.of_grown (only : s.AppendOnly) (settled : after.Settled)
    (grown : s.Grown after)
    (tasks : ∀ other, after.appender other = s.appender other ∨ s.Placed (after.appender other)) :
    after.observe.AppendOnly where
  toIntact := settled.observe
  untouched := grown.taker.trans only.untouched
  untaken := grown.taken.trans only.untaken
  placed := by
    intro other
    have taken : after.taken = [] := grown.taken.trans only.untaken
    obtain ⟨path, chain, split⟩ := settled.listed
    rw [taken, List.nil_append] at split
    rw [← split] at chain
    have still : s.Placed (after.appender other) := by
      rcases tasks other with same | placed
      · rw [same]
        exact only.placed other
      · exact placed
    exact grown.placed only.chain chain still

/-- An allocation changes no linked cell. -/
theorem AppendOnly.grown_allocate (only : s.AppendOnly) (val : T) (pc : AppendPc T) :
    s.Grown ((s.allocate val).goto task pc) where
  returned := List.prefix_refl _
  filled := by
    intro address value next linked found
    have bound := only.lt_fresh (only.chain.linked_iff.mp linked)
    simpa [cell, allocate, Machine.goto, Nat.ne_of_lt bound] using found
  taker := rfl
  taken := rfl

theorem AppendOnly.guarded (only : s.AppendOnly) {action : Action T} (appends : action.IsAppend) :
    s.Guarded action := by
  cases action with
  | append task val => trivial
  | appendStep task =>
    have placed := only.placed task
    rw [Guarded]
    cases pc : s.appender task with
    | casNext curr call =>
      rw [pc] at placed
      exact fun _ => placed
    | _ => trivial
  | take | takeStep => exact appends.elim

/-- Steps of appending tasks keep the list and the places of the tasks. -/
theorem AppendOnly.preserved (only : s.AppendOnly) {action : Action T}
    (appends : action.IsAppend) (stepped : s.step action = some after) :
    after.AppendOnly ∧ s.Grown after := by
  obtain ⟨acted, did, rfl⟩ := Option.map_eq_some_iff.mp stepped
  have settled := (act_effect did).settled only.toIntact (only.guarded appends)
  have observed (grown : s.Grown acted) : s.Grown acted.observe :=
    ⟨grown.returned, grown.filled, grown.taker, grown.taken⟩
  cases action with
  | take | takeStep => exact appends.elim
  | append task val =>
    simp only [act, beginAppend] at did
    cases pc : s.appender task <;> simp only [pc, reduceCtorEq, Option.some.injEq] at did
    subst did
    have grown : s.Grown ((s.allocate val).goto task (.loadHead (s.fresh, val))) :=
      only.grown_allocate val _
    refine ⟨only.of_grown settled grown fun other => ?_, observed grown⟩
    by_cases mine : other = task
    · rw [mine, goto_self]
      exact .inr trivial
    · exact .inl (goto_ne _ mine _)
  | appendStep task =>
    have advance : s.Advance task acted := appendStep_advance (only.placed task) did
    cases advance with
    | @moves call pc running same placed =>
      have grown := Grown.goto s task pc
      refine ⟨only.of_grown settled grown fun other => ?_, observed grown⟩
      by_cases mine : other = task
      · rw [mine, goto_self]
        exact .inr placed
      · exact .inl (goto_ne s mine pc)
    | returns running tasks calls fresh grown =>
      refine ⟨only.of_grown settled grown fun other => ?_, observed grown⟩
      rw [tasks]
      by_cases mine : other = task
      · rw [mine, Function.update_self]
        exact .inr trivial
      · exact .inl (Function.update_of_ne mine _ _)

end Steps

/-- The calls of a task are those that have returned, in the order of their nodes, and then
the one that is running. -/
def Ordered (calls : List (Call T)) (s : Machine T) (task : Nat) : Prop :=
  calls = (s.returned.filter fun call => call.1 ∈ calls.map Prod.fst) ++
    (s.appender task).call.toList

section Order

variable {s after : Machine T} {task : Nat} {calls : List (Call T)}

theorem Ordered.congr (ordered : Ordered calls s task) (returned : after.returned = s.returned)
    (same : (after.appender task).call = (s.appender task).call) : Ordered calls after task := by
  rw [Ordered, returned, same]
  exact ordered

theorem Ordered.begins (ordered : Ordered calls s task) (idle : s.appender task = .idle)
    (old : ∀ call ∈ s.returned, call.1 < s.fresh) {val : T}
    (returned : after.returned = s.returned)
    (running : (after.appender task).call = some (s.fresh, val)) :
    Ordered (calls ++ [(s.fresh, val)]) after task := by
  have same : (s.returned.filter fun call => call.1 ∈ (calls ++ [(s.fresh, val)]).map Prod.fst) =
      s.returned.filter fun call => call.1 ∈ calls.map Prod.fst := by
    refine List.filter_congr fun call member => ?_
    have different : call.1 ≠ s.fresh := Nat.ne_of_lt (old call member)
    simp [different]
  have before := ordered
  rw [Ordered, idle, AppendPc.call, Option.toList_none, List.append_nil] at before
  rw [Ordered, returned, running, same, ← before]
  rfl

/-- The call that returns was the one running, and its node is linked last. -/
theorem Ordered.returns_self (ordered : Ordered calls s task) {call : Call T}
    (running : (s.appender task).call = some call) (returned : after.returned = s.returned ++ [call])
    (idle : after.appender task = .idle) : Ordered calls after task := by
  rw [Ordered, running] at ordered
  have listed : call.1 ∈ calls.map Prod.fst := by
    rw [ordered]
    simp
  have kept : ([call].filter fun call => call.1 ∈ calls.map Prod.fst) = [call] := by
    simpa using listed
  rw [Ordered, returned, idle, List.filter_append, kept, AppendPc.call, Option.toList_none,
    List.append_nil]
  exact ordered

theorem Ordered.returns_other (ordered : Ordered calls s task) {call : Call T}
    (unlisted : call.1 ∉ calls.map Prod.fst) (returned : after.returned = s.returned ++ [call])
    (same : (after.appender task).call = (s.appender task).call) : Ordered calls after task := by
  rw [Ordered] at ordered
  have skipped : ([call].filter fun call => call.1 ∈ calls.map Prod.fst) = [] := by
    simpa using unlisted
  rw [Ordered, returned, same, List.filter_append, skipped, List.append_nil]
  exact ordered

/-- A call that is running belongs to no other task. -/
theorem Settled.unlisted (settled : s.Settled) (ordered : Ordered calls s task) {other : Nat}
    {call : Call T} (running : (s.appender other).call = some call) (different : other ≠ task) :
    call.1 ∉ calls.map Prod.fst := by
  rw [Ordered] at ordered
  rw [ordered, List.map_append, List.mem_append]
  rintro (returned | pending)
  · obtain ⟨rival, listed, same⟩ := List.mem_map.mp returned
    refine (settled.pending running).2.2 (List.mem_map.mpr ⟨rival, ?_, same⟩)
    exact (List.mem_filter.mp listed).1
  · obtain ⟨rival, listed, same⟩ := List.mem_map.mp pending
    exact different (settled.separate running (Option.mem_toList.mp listed) same.symm)

end Order

end Machine

theorem callsOf_append (task : Nat) (trail : List (Machine T × Action T)) (s : Machine T)
    (action : Action T) :
    callsOf task (trail ++ [(s, action)]) = callsOf task trail ++ (action.callOf task s).toList := by
  rw [callsOf, List.filterMap_append]
  cases own : action.callOf task s <;> simp [callsOf, own]

namespace Machine

/-- What holds after a run in which nothing was taken. -/
structure Appended (trail : List (Machine T × Action T)) (s : Machine T) : Prop where
  /-- The nodes from the head are those of the calls that have returned, with their values. -/
  chain : Chain s.cell s.head s.returned
  /-- No node is met twice. -/
  acyclic : (s.returned.map Prod.fst).Nodup
  /-- The calls of every task are linked in the order in which it made them, all of them but
  one that is still running. -/
  ordered : ∀ task, callsOf task trail =
    (s.returned.filter fun call => call.1 ∈ (callsOf task trail).map Prod.fst) ++
      (s.appender task).call.toList
  /-- Every linked node was appended by a task. -/
  begun : ∀ call ∈ s.returned, ∃ task, call ∈ callsOf task trail
  /-- A node that was linked is still linked. -/
  linked : ∀ entry ∈ trail, ∀ address, Linked entry.1.cell entry.1.head address →
    Linked s.cell s.head address
  /-- No task has followed a null pointer. -/
  standing : ∀ task, s.appender task ≠ .crashed

section Runs

variable {trail : List (Machine T × Action T)} {s after : Machine T} {action : Action T}

theorem AppendOnly.standing (only : s.AppendOnly) (task : Nat) : s.appender task ≠ .crashed := by
  intro crashed
  have placed := only.placed task
  rw [crashed] at placed
  exact placed

/-- A step keeps every task's calls in order. -/
theorem AppendOnly.ordered (only : s.AppendOnly) (appends : action.IsAppend)
    (stepped : s.step action = some after) {task : Nat}
    (ordered : Ordered (callsOf task trail) s task) :
    Ordered (callsOf task (trail ++ [(s, action)])) after task := by
  obtain ⟨acted, did, rfl⟩ := Option.map_eq_some_iff.mp stepped
  rw [callsOf_append]
  cases action with
  | take | takeStep => exact appends.elim
  | append other val =>
    simp only [act, beginAppend] at did
    cases pc : s.appender other <;> simp only [pc, reduceCtorEq, Option.some.injEq] at did
    subst did
    by_cases mine : other = task
    · subst mine
      rw [Action.callOf, if_pos rfl]
      exact ordered.begins pc only.allocated rfl (congrArg AppendPc.call (goto_self _ other _))
    · rw [Action.callOf, if_neg mine, Option.toList_none, List.append_nil]
      exact ordered.congr rfl (congrArg AppendPc.call (goto_ne _ (Ne.symm mine) _))
  | appendStep other =>
    have beginsNone : (Action.appendStep other : Action T).callOf task s = none := rfl
    rw [beginsNone, Option.toList_none, List.append_nil]
    have advance : s.Advance other acted := appendStep_advance (only.placed other) did
    cases advance with
    | @moves call pc running same placed =>
      refine ordered.congr rfl ?_
      by_cases mine : other = task
      · subst mine
        rw [running, ← same]
        exact congrArg AppendPc.call (goto_self s other pc)
      · exact congrArg AppendPc.call (goto_ne s (Ne.symm mine) pc)
    | @returns call _ running tasks calls fresh grown =>
      by_cases mine : other = task
      · subst mine
        exact ordered.returns_self running calls
          ((congrFun tasks other).trans (Function.update_self ..))
      · have unlisted := only.unlisted ordered running mine
        refine ordered.returns_other unlisted calls (congrArg AppendPc.call ?_)
        exact (congrFun tasks task).trans (Function.update_of_ne (Ne.symm mine) ..)

/-- A call that returns in a step was running before it. -/
theorem AppendOnly.returned_cases (only : s.AppendOnly) (appends : action.IsAppend)
    (stepped : s.step action = some after) {call : Call T} (returned : call ∈ after.returned) :
    call ∈ s.returned ∨ ∃ task, (s.appender task).call = some call := by
  obtain ⟨acted, did, rfl⟩ := Option.map_eq_some_iff.mp stepped
  cases action with
  | take | takeStep => exact appends.elim
  | append other val =>
    simp only [act, beginAppend] at did
    cases pc : s.appender other <;> simp only [pc, reduceCtorEq, Option.some.injEq] at did
    subst did
    exact .inl returned
  | appendStep other =>
    have advance : s.Advance other acted := appendStep_advance (only.placed other) did
    cases advance with
    | moves => exact .inl returned
    | returns running _ calls =>
      have listed : call ∈ acted.returned := returned
      rw [calls, List.mem_append, List.mem_singleton] at listed
      rcases listed with before | rfl
      · exact .inl before
      · exact .inr ⟨other, running⟩

theorem appended_of_run (run : (machine T).Run trail s)
    (appends : System.Run.AllSteps (fun _ action => action.IsAppend) trail) :
    s.AppendOnly ∧ Appended trail s := by
  induction run with
  | initial valid =>
    rw [valid]
    refine ⟨appendOnly_new, rfl, .nil, fun _ => rfl, nofun, nofun, fun _ => nofun⟩
  | @step trail state action next prior transition inductionHypothesis =>
    obtain ⟨earlier, last⟩ := System.Run.allSteps_append.mp appends
    obtain ⟨only, appended⟩ := inductionHypothesis earlier
    obtain ⟨onlyNext, grown⟩ := only.preserved last transition
    refine ⟨onlyNext, onlyNext.chain, onlyNext.distinct, fun task => ?_, fun call returned => ?_,
      fun entry member address linked => ?_, onlyNext.standing⟩
    · exact only.ordered last transition (appended.ordered task)
    · rcases only.returned_cases last transition returned with before | ⟨task, running⟩
      · obtain ⟨task, listed⟩ := appended.begun call before
        exact ⟨task, by rw [callsOf_append]; exact List.mem_append_left _ listed⟩
      · refine ⟨task, ?_⟩
        rw [callsOf_append, appended.ordered task, running]
        simp
    · rw [List.mem_append, List.mem_singleton] at member
      rcases member with before | rfl
      · exact grown.linked only.chain onlyNext.chain (appended.linked entry before address linked)
      · exact grown.linked only.chain onlyNext.chain linked

/-- In every interleaving of tasks that append while nothing is taken, the nodes from the head
are a chain of the completed calls, each once and in the order of each task, and no node is
ever unlinked. -/
theorem append_only_chain (run : (machine T).Run trail s)
    (appends : System.Run.AllSteps (fun _ action => action.IsAppend) trail) : Appended trail s :=
  (appended_of_run run appends).2

/-- Two tasks append to an empty list, and the second one links its node behind the first. -/
theorem append_only_chain_two :
    let actions : List (Action Nat) := [.append 0 7, .append 1 8, .appendStep 0, .appendStep 1,
      .appendStep 0, .appendStep 1, .appendStep 1, .appendStep 1, .appendStep 1, .appendStep 1]
    ∃ s, (machine Nat).Run (System.trailOf Machine.step new actions) s ∧
      s.returned = [(0, 7), (1, 8)] ∧ Appended (System.trailOf Machine.step new actions) s := by
  intro actions
  have ran : (System.execute Machine.step new actions).map (fun s => s.returned) =
      some [(0, 7), (1, 8)] := rfl
  obtain ⟨s, executed, returned⟩ := Option.map_eq_some_iff.mp ran
  have run := System.run_of_execute executed
  refine ⟨s, run, returned, append_only_chain run ?_⟩
  have onlyAppends : ∀ action ∈ (System.trailOf Machine.step new actions).map Prod.snd,
      action.IsAppend := by
    have listed : (System.trailOf Machine.step new actions).map Prod.snd = actions := rfl
    rw [listed]
    simp [actions, Action.IsAppend]
  exact fun entry member => onlyAppends _ (List.mem_map_of_mem member)

end Runs

end Machine
end Sipusu.Ds.LinkedList
