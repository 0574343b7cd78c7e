import Sipusu.Foundation.Chain
import Sipusu.Foundation.Runs

/-!
# The message list

`src/ds/linked_list.rs` as a shared state machine. Every atomic load and every
compare-exchange of `List::append`, `iter_exchange` and `List::take_first` is one
step, any number of tasks append and one task takes. A freed node keeps its
content, since no address is used for another node.
-/

namespace Sipusu.Ds.LinkedList

open Sipusu.Foundation

abbrev Addr := Nat

/-- `struct AtmcNode<T>`. -/
structure AtmcNode (T : Type) where
  val : T
  next : Option Addr
deriving DecidableEq, Repr

/-- A call of `append`: its node, and the value it was given. -/
abbrev Call (T : Type) := Addr × T

/-- What an appending task does next. -/
inductive AppendPc (T : Type) where
  /-- No call is running. -/
  | idle
  /-- `let head = self.head.load(..)` at the top of the loop. -/
  | loadHead (call : Call T)
  /-- `self.head.compare_exchange(null, new_node, ..)`. -/
  | casHead (call : Call T)
  /-- `self.head.load(..)` for `iter_exchange`. -/
  | reloadHead (call : Call T)
  /-- The load in the `while` condition of `iter_exchange`. -/
  | testNext (curr : Option Addr) (call : Call T)
  /-- The load in the `while` body of `iter_exchange`. -/
  | follow (curr : Addr) (call : Call T)
  /-- `(*curr).next.compare_exchange(null, excd, ..)`. -/
  | casNext (curr : Addr) (call : Call T)
  /-- A null pointer was followed. -/
  | crashed
deriving DecidableEq, Repr

/-- The call a task is in. -/
def AppendPc.call {T : Type} : AppendPc T → Option (Call T)
  | .idle | .crashed => none
  | .loadHead call | .casHead call | .reloadHead call | .testNext _ call | .follow _ call
  | .casNext _ call => some call

/-- What the taking task does next. -/
inductive TakePc where
  /-- No call is running. -/
  | idle
  /-- `let head = self.head.load(..)`. -/
  | loadHead
  /-- `let next = (*head).next.load(..)`. -/
  | loadNext (head : Addr)
  /-- `self.head.compare_exchange(head, next, ..)`. -/
  | casHead (head : Addr) (next : Option Addr)
deriving DecidableEq, Repr

/-- The shared memory, the tasks, and what the calls have returned so far. -/
structure Machine (T : Type) where
  heap : Addr → Option (AtmcNode T)
  fresh : Addr
  head : Option Addr
  appender : Nat → AppendPc T
  taker : TakePc
  /-- The calls of `append` that have returned. -/
  returned : List (Call T)
  /-- The nodes and values that `take_first` has returned. -/
  taken : List (Call T)
  /-- Whether the list has been empty since the running `take_first` began. -/
  emptySeen : Bool
  /-- For every `None` returned, whether the list was empty during that call. -/
  nones : List Bool

/-- What a task does. -/
inductive Action (T : Type) where
  | append (task : Nat) (val : T)
  | appendStep (task : Nat)
  | take
  | takeStep

variable {T : Type}

namespace Machine

/-- `List::new`. -/
def new : Machine T where
  heap _ := none
  fresh := 0
  head := none
  appender _ := .idle
  taker := .idle
  returned := []
  taken := []
  emptySeen := true
  nones := []

/-- A task goes on with the given step. -/
def goto (s : Machine T) (task : Nat) (pc : AppendPc T) : Machine T :=
  { s with appender := Function.update s.appender task pc }

/-- `append` returns. -/
def returns (s : Machine T) (task : Nat) (call : Call T) : Machine T :=
  { s.goto task .idle with returned := s.returned ++ [call] }

/-- `take_first` returns `None`. -/
def takesNone (s : Machine T) : Machine T :=
  { s with taker := .idle, nones := s.nones ++ [s.emptySeen] }

/-- `AtmcNode::new` at a fresh address. -/
def allocate (s : Machine T) (val : T) : Machine T :=
  { s with heap := Function.update s.heap s.fresh (some { val, next := none }),
           fresh := s.fresh + 1 }

/-- The link of a node is filled. -/
def fill (s : Machine T) (address : Addr) (node : AtmcNode T) (link : Addr) : Machine T :=
  { s with heap := Function.update s.heap address (some { node with next := some link }) }

/-- `take_first` swings the head and returns the value of the node it pointed to. -/
def takes (s : Machine T) (head : Addr) (next : Option Addr) (node : AtmcNode T) : Machine T :=
  { s with taker := .idle, head := next, taken := s.taken ++ [(head, node.val)] }

/-- A call of `append` allocates its node. -/
def beginAppend (s : Machine T) (task : Nat) (val : T) : Option (Machine T) :=
  match s.appender task with
  | .idle => some ((s.allocate val).goto task (.loadHead (s.fresh, val)))
  | _ => none

/-- One step of `List::append` or of `iter_exchange`. -/
def appendStep (s : Machine T) (task : Nat) : Option (Machine T) :=
  match s.appender task with
  | .idle | .crashed => none
  | .loadHead call =>
      match s.head with
      | none => some (s.goto task (.casHead call))
      | some _ => some (s.goto task (.reloadHead call))
  | .casHead call =>
      match s.head with
      | none => some { s.returns task call with head := some call.1 }
      | some _ => some (s.goto task (.loadHead call))
  | .reloadHead call => some (s.goto task (.testNext s.head call))
  | .testNext none _ => some (s.goto task .crashed)
  | .testNext (some curr) call => do
      let node ← s.heap curr
      match node.next with
      | none => some (s.goto task (.casNext curr call))
      | some _ => some (s.goto task (.follow curr call))
  | .follow curr call => do
      let node ← s.heap curr
      some (s.goto task (.testNext node.next call))
  | .casNext curr call => do
      let node ← s.heap curr
      match node.next with
      | none => some ((s.returns task call).fill curr node call.1)
      | some _ => some (s.goto task (.loadHead call))

/-- A call of `take_first` begins. -/
def beginTake (s : Machine T) : Option (Machine T) :=
  match s.taker with
  | .idle => some { s with taker := .loadHead, emptySeen := false }
  | _ => none

/-- One step of `List::take_first`. -/
def takeStep (s : Machine T) : Option (Machine T) :=
  match s.taker with
  | .idle => none
  | .loadHead =>
      match s.head with
      | none => some s.takesNone
      | some head => some { s with taker := .loadNext head }
  | .loadNext head => do
      let node ← s.heap head
      some { s with taker := .casHead head node.next }
  | .casHead head next =>
      if s.head = some head then do
        let node ← s.heap head
        some (s.takes head next node)
      else some s.takesNone

/-- Note whether the list is empty now. -/
def observe (s : Machine T) : Machine T := { s with emptySeen := s.emptySeen || s.head.isNone }

/-- What an action does to the memory and the tasks. -/
def act (s : Machine T) : Action T → Option (Machine T)
  | .append task val => s.beginAppend task val
  | .appendStep task => s.appendStep task
  | .take => s.beginTake
  | .takeStep => s.takeStep

/-- One step of the machine. -/
def step (s : Machine T) (action : Action T) : Option (Machine T) := (s.act action).map observe

end Machine

/-- All interleavings of the appending tasks and the taking task. -/
def machine (T : Type) : System (Machine T) (Action T) := .ofStep .new Machine.step

namespace Machine

/-- `take_first` has freed the node. -/
def Freed (s : Machine T) (address : Addr) : Prop := address ∈ s.taken.map Prod.fst

/-- An appending task follows no null pointer and no pointer to a freed node. -/
def Defined (s : Machine T) : Action T → Prop
  | .appendStep task =>
      match s.appender task with
      | .testNext none _ => False
      | .testNext (some curr) _ | .follow curr _ | .casNext curr _ => ¬ s.Freed curr
      | _ => True
  | _ => True

instance (s : Machine T) (address : Addr) : Decidable (s.Freed address) :=
  inferInstanceAs (Decidable (address ∈ s.taken.map Prod.fst))

instance (s : Machine T) : (action : Action T) → Decidable (s.Defined action)
  | .appendStep task =>
      match pc : s.appender task with
      | .testNext none _ => .isFalse (by simp [Defined, pc])
      | .testNext (some curr) _ | .follow curr _ | .casNext curr _ =>
          decidable_of_iff (¬ s.Freed curr) (by simp [Defined, pc])
      | .idle | .loadHead _ | .casHead _ | .reloadHead _ | .crashed =>
          .isTrue (by simp [Defined, pc])
  | .append _ _ | .take | .takeStep => .isTrue trivial

/-- One step, where the code has a result for it. -/
def definedStep (s : Machine T) (action : Action T) : Option (Machine T) :=
  if s.Defined action then s.step action else none

end Machine

/-- The interleavings as far as the code has a result for every step. In them no pointer to a
freed node is followed, so that it makes no difference whether its address is used again. -/
def definedMachine (T : Type) : System (Machine T) (Action T) := .ofStep .new Machine.definedStep

namespace Machine

theorem definedStep_eq_some {s after : Machine T} {action : Action T} :
    s.definedStep action = some after ↔ s.Defined action ∧ s.step action = some after := by
  unfold definedStep
  split
  · simp [*]
  · simp [*]

/-- They are interleavings of the machine. -/
theorem run_of_defined {trail : List (Machine T × Action T)} {s : Machine T}
    (run : (definedMachine T).Run trail s) : (machine T).Run trail s := by
  induction run with
  | initial valid => exact .initial valid
  | step _ transition inductionHypothesis =>
    exact .step inductionHypothesis (definedStep_eq_some.mp transition).2

/-- A cell as its value and its link. -/
def cell (s : Machine T) (address : Addr) : Option (T × Option Addr) :=
  (s.heap address).map fun node => (node.val, node.next)

/-- A node with its value is reachable from the head. -/
def OnList (s : Machine T) (call : Call T) : Prop :=
  Linked s.cell s.head call.1 ∧ ∃ next, s.cell call.1 = some (call.2, next)

/-- No message is lost or duplicated so far, and no `None` was returned by a call
during which the list was never empty. -/
structure Safe (s : Machine T) : Prop where
  kept : ∀ call ∈ s.returned, s.OnList call ∨ call ∈ s.taken
  once : (s.taken.map Prod.fst).Nodup
  honest : ∀ seen ∈ s.nones, seen = true

/-- The condition on steps. When `take_first` swings the head, the link it read is
still the link of the head node; when `append` fills a null link, the node it
extends is still on the list. -/
def Guarded (s : Machine T) : Action T → Prop
  | .takeStep =>
      match s.taker with
      | .casHead head next => ∀ node, s.heap head = some node → node.next = next
      | _ => True
  | .appendStep task =>
      match s.appender task with
      | .casNext curr _ => (∃ node, s.heap curr = some node ∧ node.next = none) →
          Linked s.cell s.head curr
      | _ => True
  | _ => True

/-- What one action can do, before the list is observed. -/
inductive Effect (s : Machine T) : Action T → Machine T → Prop where
  | allocates {task val} (idle : s.appender task = .idle) :
      Effect s (.append task val) ((s.allocate val).goto task (.loadHead (s.fresh, val)))
  | moves {task pc} (sameCall : pc.call = (s.appender task).call ∨ pc.call = none)
      (harmless : s.Guarded (.appendStep task)) :
      Effect s (.appendStep task) (s.goto task pc)
  | starts {task call} (here : s.appender task = .casHead call) (empty : s.head = none) :
      Effect s (.appendStep task) { s.returns task call with head := some call.1 }
  | extends {task curr call node} (here : s.appender task = .casNext curr call)
      (found : s.heap curr = some node) (last : node.next = none) :
      Effect s (.appendStep task) ((s.returns task call).fill curr node call.1)
  | begins (idle : s.taker = .idle) :
      Effect s .take { s with taker := .loadHead, emptySeen := false }
  | readsHead {head} (here : s.taker = .loadHead) (first : s.head = some head) :
      Effect s .takeStep { s with taker := .loadNext head }
  | readsNext {head node} (here : s.taker = .loadNext head) (found : s.heap head = some node) :
      Effect s .takeStep { s with taker := .casHead head node.next }
  | takes {head next node} (here : s.taker = .casHead head next) (first : s.head = some head)
      (found : s.heap head = some node) :
      Effect s .takeStep (s.takes head next node)
  | findsEmpty (here : s.taker = .loadHead) (empty : s.head = none) :
      Effect s .takeStep s.takesNone
  | overtaken {head next} (here : s.taker = .casHead head next) (moved : s.head ≠ some head) :
      Effect s .takeStep s.takesNone

theorem appendStep_effect {s after : Machine T} {task : Nat}
    (stepped : s.appendStep task = some after) : Effect s (.appendStep task) after := by
  unfold appendStep at stepped
  cases pc : s.appender task with
  | idle => simp [pc] at stepped
  | crashed => simp [pc] at stepped
  | loadHead call =>
    cases head : s.head <;> simp only [pc, head, Option.some.injEq] at stepped <;> subst stepped <;>
      exact .moves (.inl (by rw [pc]; rfl)) (by simp [Guarded, pc])
  | casHead call =>
    cases head : s.head with
    | none =>
      simp only [pc, head, Option.some.injEq] at stepped
      subst stepped
      exact .starts pc head
    | some first =>
      simp only [pc, head, Option.some.injEq] at stepped
      subst stepped
      exact .moves (.inl (by rw [pc]; rfl)) (by simp [Guarded, pc])
  | reloadHead call =>
    simp only [pc, Option.some.injEq] at stepped
    subst stepped
    exact .moves (.inl (by rw [pc]; rfl)) (by simp [Guarded, pc])
  | testNext curr call =>
    cases curr with
    | none =>
      simp only [pc, Option.some.injEq] at stepped
      subst stepped
      exact .moves (.inr rfl) (by simp [Guarded, pc])
    | some curr =>
      simp only [pc, Option.bind_eq_bind, Option.bind_eq_some_iff] at stepped
      obtain ⟨node, _, stepped⟩ := stepped
      cases link : node.next <;> simp only [link, Option.some.injEq] at stepped <;>
        subst stepped <;> exact .moves (.inl (by rw [pc]; rfl)) (by simp [Guarded, pc])
  | follow curr call =>
    simp only [pc, Option.bind_eq_bind, Option.bind_eq_some_iff, Option.some.injEq] at stepped
    obtain ⟨node, _, rfl⟩ := stepped
    exact .moves (.inl (by rw [pc]; rfl)) (by simp [Guarded, pc])
  | casNext curr call =>
    simp only [pc, Option.bind_eq_bind, Option.bind_eq_some_iff] at stepped
    obtain ⟨node, found, stepped⟩ := stepped
    cases link : node.next with
    | none =>
      simp only [link, Option.some.injEq] at stepped
      subst stepped
      exact .extends pc found link
    | some next =>
      simp only [link, Option.some.injEq] at stepped
      subst stepped
      exact .moves (.inl (by rw [pc]; rfl)) (by simp [Guarded, pc, found, link])

theorem takeStep_effect {s after : Machine T} (stepped : s.takeStep = some after) :
    Effect s .takeStep after := by
  unfold takeStep at stepped
  cases pc : s.taker with
  | idle => simp [pc] at stepped
  | loadHead =>
    cases head : s.head with
    | none =>
      simp only [pc, head, Option.some.injEq] at stepped
      subst stepped
      exact .findsEmpty pc head
    | some first =>
      simp only [pc, head, Option.some.injEq] at stepped
      subst stepped
      simpa only [head] using Effect.readsHead pc head
  | loadNext head =>
    simp only [pc, Option.bind_eq_bind, Option.bind_eq_some_iff, Option.some.injEq] at stepped
    obtain ⟨node, found, rfl⟩ := stepped
    exact .readsNext pc found
  | casHead head next =>
    by_cases unmoved : s.head = some head
    · simp only [pc, unmoved, if_true, Option.bind_eq_bind, Option.bind_eq_some_iff,
        Option.some.injEq] at stepped
      obtain ⟨node, found, rfl⟩ := stepped
      exact .takes pc unmoved found
    · simp only [pc, unmoved, if_false, Option.some.injEq] at stepped
      subst stepped
      exact .overtaken pc unmoved

theorem act_effect {s after : Machine T} {action : Action T} (acted : s.act action = some after) :
    Effect s action after := by
  cases action with
  | append task val =>
    simp only [act, beginAppend] at acted
    cases pc : s.appender task <;> simp only [pc, reduceCtorEq, Option.some.injEq] at acted
    subst acted
    exact .allocates pc
  | appendStep task => exact appendStep_effect acted
  | take =>
    simp only [act, beginTake] at acted
    cases pc : s.taker <;> simp only [pc, reduceCtorEq, Option.some.injEq] at acted
    subst acted
    exact .begins pc
  | takeStep => exact takeStep_effect acted

/-- What the taking task has read still holds: the head has not moved, and a link it
saw filled is still the head's link. -/
def Reading (cell : Addr → Option (T × Option Addr)) (head : Option Addr) : TakePc → Prop
  | .idle | .loadHead => True
  | .loadNext first => head = some first
  | .casHead first next => head = some first ∧
      ∀ later, next = some later → ∃ value, cell first = some (value, some later)

theorem Reading.mono {cell changed : Addr → Option (T × Option Addr)} {head : Option Addr}
    {taker : TakePc} (reading : Reading cell head taker)
    (kept : ∀ {first value later}, head = some first → cell first = some (value, some later) →
      changed first = some (value, some later)) : Reading changed head taker := by
  cases taker with
  | idle => trivial
  | loadHead => trivial
  | loadNext first => exact reading
  | casHead first next =>
    obtain ⟨unmoved, links⟩ := reading
    refine ⟨unmoved, fun later filled => ?_⟩
    obtain ⟨value, found⟩ := links later filled
    exact ⟨value, kept unmoved found⟩

/-- On an empty list the taking task holds nothing. -/
theorem Reading.of_empty {cell changed : Addr → Option (T × Option Addr)} {head : Option Addr}
    {taker : TakePc} (reading : Reading cell none taker) : Reading changed head taker := by
  cases taker with
  | idle => trivial
  | loadHead => trivial
  | loadNext first => cases reading
  | casHead first next => cases reading.1

/-- What guarded steps keep, up to the observation that ends a step. The calls that
have returned are the nodes taken, then the nodes on the list, in one order. -/
structure Settled (s : Machine T) : Prop where
  listed : ∃ path, Chain s.cell s.head path ∧ s.returned = s.taken ++ path
  distinct : (s.returned.map Prod.fst).Nodup
  allocated : ∀ call ∈ s.returned, call.1 < s.fresh
  pending : ∀ {task call}, (s.appender task).call = some call →
    s.cell call.1 = some (call.2, none) ∧ call.1 < s.fresh ∧ call.1 ∉ s.returned.map Prod.fst
  separate : ∀ {task other call rival}, (s.appender task).call = some call →
    (s.appender other).call = some rival → call.1 = rival.1 → task = other
  reading : Reading s.cell s.head s.taker
  honest : ∀ seen ∈ s.nones, seen = true

/-- `Settled`, with the observation made. -/
structure Intact (s : Machine T) : Prop extends Settled s where
  watched : s.head = none → s.emptySeen = true

theorem Settled.observe {s : Machine T} (settled : s.Settled) : s.observe.Intact where
  listed := settled.listed
  distinct := settled.distinct
  allocated := settled.allocated
  pending := settled.pending
  separate := settled.separate
  reading := settled.reading
  honest := settled.honest
  watched empty := by
    have headNone : s.head = none := empty
    simp [Machine.observe, headNone]

theorem intact_new : (new : Machine T).Intact where
  listed := ⟨[], rfl, rfl⟩
  distinct := .nil
  allocated := by simp [new]
  pending running := by cases running
  separate running := by cases running
  reading := trivial
  honest := by simp [new]
  watched _ := rfl

theorem goto_self (s : Machine T) (task : Nat) (pc : AppendPc T) :
    (s.goto task pc).appender task = pc := by simp [goto]

theorem goto_ne (s : Machine T) {task other : Nat} (different : other ≠ task)
    (pc : AppendPc T) : (s.goto task pc).appender other = s.appender other := by
  simp [goto, different]

/-- Calls that run after a task moved on ran before. -/
theorem call_of_goto {s : Machine T} {task other : Nat} {pc : AppendPc T} {call : Call T}
    (sameCall : pc.call = (s.appender task).call ∨ pc.call = none)
    (running : ((s.goto task pc).appender other).call = some call) :
    (s.appender other).call = some call ∧ (other = task → pc.call = some call) := by
  by_cases mine : other = task
  · subst mine
    rw [goto_self] at running
    rcases sameCall with same | gone
    · exact ⟨same ▸ running, fun _ => running⟩
    · rw [gone] at running
      cases running
  · rw [goto_ne s mine] at running
    exact ⟨running, fun same => absurd same mine⟩

theorem Settled.moves {s : Machine T} (settled : s.Settled) {task : Nat} {pc : AppendPc T}
    (sameCall : pc.call = (s.appender task).call ∨ pc.call = none) : (s.goto task pc).Settled where
  listed := settled.listed
  distinct := settled.distinct
  allocated := settled.allocated
  pending running := settled.pending (call_of_goto sameCall running).1
  separate running rivals same :=
    settled.separate (call_of_goto sameCall running).1 (call_of_goto sameCall rivals).1 same
  reading := settled.reading
  honest := settled.honest

/-- The first node of the list belongs to a call that has returned. -/
theorem Settled.head_returned {s : Machine T} (settled : s.Settled) {head : Addr}
    (first : s.head = some head) : head ∈ s.returned.map Prod.fst := by
  obtain ⟨path, chain, split⟩ := settled.listed
  rw [first] at chain
  obtain ⟨value, next, rest, rfl, _⟩ := chain.eq_cons
  simp [split]

theorem Settled.lt_fresh {s : Machine T} (settled : s.Settled) {address : Addr}
    (member : address ∈ s.returned.map Prod.fst) : address < s.fresh := by
  obtain ⟨call, returned, rfl⟩ := List.mem_map.mp member
  exact settled.allocated call returned

theorem Settled.allocates {s : Machine T} (settled : s.Settled) {task : Nat} {val : T} :
    ((s.allocate val).goto task (.loadHead (s.fresh, val))).Settled := by
  have old : ∀ {address}, address < s.fresh →
      ((s.allocate val).goto task (.loadHead (s.fresh, val))).cell address = s.cell address := by
    intro address bound
    have different : address ≠ s.fresh := Nat.ne_of_lt bound
    simp [cell, allocate, goto, different]
  have running : ∀ {other : Nat} {call : Call T},
      (((s.allocate val).goto task (.loadHead (s.fresh, val))).appender other).call = some call →
      (other = task ∧ call = (s.fresh, val)) ∨
        (other ≠ task ∧ (s.appender other).call = some call) := by
    intro other call running
    by_cases mine : other = task
    · subst mine
      rw [goto_self] at running
      exact .inl ⟨rfl, (Option.some.inj running).symm⟩
    · rw [goto_ne _ mine] at running
      exact .inr ⟨mine, running⟩
  obtain ⟨path, chain, split⟩ := settled.listed
  refine ⟨⟨path, ?_, split⟩, settled.distinct, ?_, ?_, ?_, ?_, settled.honest⟩
  · refine chain.frame fun address member => old (settled.lt_fresh ?_)
    rw [split, List.map_append]
    exact List.mem_append_right _ member
  · intro call returned
    exact Nat.lt_succ_of_lt (settled.allocated call returned)
  · rintro other call inCall
    rcases running inCall with ⟨rfl, rfl⟩ | ⟨different, before⟩
    · refine ⟨by simp [cell, allocate, goto], Nat.lt_succ_self _, fun member => ?_⟩
      exact Nat.lt_irrefl _ (settled.lt_fresh member)
    · obtain ⟨unlinked, bound, unreturned⟩ := settled.pending before
      exact ⟨(old bound).trans unlinked, Nat.lt_succ_of_lt bound, unreturned⟩
  · rintro one other call rival inCall inRival same
    rcases running inCall with ⟨rfl, rfl⟩ | ⟨_, before⟩ <;>
      rcases running inRival with ⟨rfl, rfl⟩ | ⟨_, rivalBefore⟩
    · rfl
    · exact absurd same.symm (Nat.ne_of_lt (settled.pending rivalBefore).2.1)
    · exact absurd same (Nat.ne_of_lt (settled.pending before).2.1)
    · exact settled.separate before rivalBefore same
  · refine settled.reading.mono fun {first value later} isFirst found => ?_
    rw [old (settled.lt_fresh (settled.head_returned isFirst)), found]

/-- The tasks still in a call after one call returned are the others. -/
theorem call_of_returns {s : Machine T} (settled : s.Settled) {task other : Nat}
    {call rival : Call T} (mine : (s.appender task).call = some call)
    (running : ((s.returns task call).appender other).call = some rival) :
    (s.appender other).call = some rival ∧ rival.1 ≠ call.1 := by
  by_cases same : other = task
  · subst same
    have idle : (s.returns other call).appender other = .idle := goto_self s other .idle
    rw [idle] at running
    cases running
  · have before : (s.appender other).call = some rival := by
      rw [← goto_ne s same .idle]
      exact running
    exact ⟨before, fun equal => same (settled.separate before mine equal)⟩

/-- The bookkeeping shared by the two steps at which `append` returns. -/
theorem Settled.returns {s after : Machine T} (settled : s.Settled) {task : Nat} {call : Call T}
    (mine : (s.appender task).call = some call)
    (tasks : after.appender = (s.returns task call).appender)
    (calls : after.returned = s.returned ++ [call]) (bound : after.fresh = s.fresh)
    (nones : after.nones = s.nones)
    (listed : ∃ path, Chain after.cell after.head path ∧ after.returned = after.taken ++ path)
    (others : ∀ address, address ∉ s.returned.map Prod.fst →
      after.cell address = s.cell address)
    (reading : Reading after.cell after.head after.taker) : after.Settled := by
  obtain ⟨_, callBound, unreturned⟩ := settled.pending mine
  refine ⟨listed, ?_, ?_, ?_, ?_, reading, ?_⟩
  · rw [calls, List.map_append, List.nodup_append]
    refine ⟨settled.distinct, by simp, ?_⟩
    rintro address member other isCall same
    simp only [List.map_cons, List.map_nil, List.mem_singleton] at isCall
    exact unreturned (isCall ▸ same ▸ member)
  · intro other member
    rw [calls] at member
    rw [bound]
    rcases List.mem_append.mp member with before | isCall
    · exact settled.allocated other before
    · rw [List.mem_singleton.mp isCall]
      exact callBound
  · intro other rival running
    rw [tasks] at running
    obtain ⟨before, different⟩ := call_of_returns settled mine running
    obtain ⟨unlinked, rivalBound, rivalUnreturned⟩ := settled.pending before
    rw [others _ rivalUnreturned, bound, calls]
    exact ⟨unlinked, rivalBound, by simpa [different] using rivalUnreturned⟩
  · intro one other first second inFirst inSecond same
    rw [tasks] at inFirst inSecond
    exact settled.separate (call_of_returns settled mine inFirst).1
      (call_of_returns settled mine inSecond).1 same
  · rw [nones]
    exact settled.honest

theorem Settled.starts {s : Machine T} (settled : s.Settled) {task : Nat} {call : Call T}
    (here : s.appender task = .casHead call) (empty : s.head = none) :
    Settled { s.returns task call with head := some call.1 } := by
  have mine : (s.appender task).call = some call := by rw [here]; rfl
  obtain ⟨path, chain, split⟩ := settled.listed
  rw [empty] at chain
  cases chain.eq_nil
  have reading := settled.reading
  rw [empty] at reading
  refine settled.returns mine rfl rfl rfl rfl ⟨[call], ?_, ?_⟩ (fun _ _ => rfl) reading.of_empty
  · exact ⟨rfl, none, (settled.pending mine).1, rfl⟩
  · change s.returned ++ [call] = s.taken ++ [call]
    rw [split, List.append_nil]

theorem Settled.extends {s : Machine T} (settled : s.Settled) {task : Nat} {curr : Addr}
    {call : Call T} {node : AtmcNode T} (here : s.appender task = .casNext curr call)
    (found : s.heap curr = some node) (last : node.next = none)
    (onList : Linked s.cell s.head curr) :
    ((s.returns task call).fill curr node call.1).Settled := by
  have mine : (s.appender task).call = some call := by rw [here]; rfl
  obtain ⟨unlinked, _, unreturned⟩ := settled.pending mine
  obtain ⟨path, chain, split⟩ := settled.listed
  have onPath : curr ∈ path.map Prod.fst := chain.linked_iff.mp onList
  have returned : curr ∈ s.returned.map Prod.fst := by
    rw [split, List.map_append]
    exact List.mem_append_right _ onPath
  have fresh : call.1 ≠ curr := fun same => unreturned (same ▸ returned)
  have ended : s.cell curr = some (node.val, none) := by simp [cell, found, last]
  have cells : ∀ address,
      ((s.returns task call).fill curr node call.1).cell address =
        if address = curr then some (node.val, some call.1) else s.cell address := by
    intro address
    by_cases same : address = curr
    · simp [cell, fill, same]
    · simp [cell, fill, Machine.returns, goto, same]
  refine settled.returns mine rfl rfl rfl rfl ⟨path ++ [call], ?_, ?_⟩ ?_ ?_
  · refine chain.extend onPath ended (fun address _ different => ?_) ?_ ?_
    · rw [cells, if_neg different]
    · rw [cells, if_pos rfl]
    · rw [cells, if_neg fresh, unlinked]
  · change s.returned ++ [call] = s.taken ++ (path ++ [call])
    rw [split, List.append_assoc]
  · intro address outside
    have different : address ≠ curr := fun same => outside (same ▸ returned)
    rw [cells, if_neg different]
  · refine settled.reading.mono fun {first value later} _ filled => ?_
    have different : first ≠ curr := by
      rintro rfl
      rw [ended] at filled
      cases filled
    rw [cells, if_neg different, filled]

theorem Settled.takes {s : Machine T} (settled : s.Settled) {head : Addr} {node : AtmcNode T}
    (first : s.head = some head) (found : s.heap head = some node) :
    (s.takes head node.next node).Settled := by
  obtain ⟨path, chain, split⟩ := settled.listed
  rw [first] at chain
  obtain ⟨value, next, rest, rfl, headCell, later⟩ := chain.eq_cons
  have cellEq : s.cell head = some (node.val, node.next) := by simp [cell, found]
  rw [cellEq, Option.some.injEq, Prod.mk.injEq] at headCell
  obtain ⟨rfl, rfl⟩ := headCell
  refine ⟨⟨rest, later, ?_⟩, settled.distinct, settled.allocated, settled.pending,
    settled.separate, trivial, settled.honest⟩
  change s.returned = s.taken ++ [(head, node.val)] ++ rest
  rw [split, List.append_assoc]
  rfl

/-- Guarded actions keep the list together. -/
theorem Effect.settled {s after : Machine T} {action : Action T} (intact : s.Intact)
    (effect : Effect s action after) (guarded : s.Guarded action) : after.Settled := by
  have settled := intact.toSettled
  cases effect with
  | allocates idle => exact settled.allocates
  | moves sameCall _ => exact settled.moves sameCall
  | starts here empty => exact settled.starts here empty
  | «extends» here found last =>
    simp only [Guarded, here] at guarded
    exact settled.extends here found last (guarded ⟨_, found, last⟩)
  | begins idle =>
    exact { settled with reading := trivial }
  | readsHead here first =>
    exact { settled with reading := first }
  | @readsNext head node here found =>
    have unmoved := settled.reading
    rw [here] at unmoved
    refine { settled with reading := ⟨unmoved, fun later filled => ⟨node.val, ?_⟩⟩ }
    change s.cell head = some (node.val, some later)
    simp [cell, found, filled]
  | takes here first found =>
    simp only [Guarded, here] at guarded
    rw [← guarded _ found]
    exact settled.takes first found
  | findsEmpty here empty =>
    refine { settled with reading := trivial, honest := ?_ }
    rintro seen member
    rcases List.mem_append.mp member with before | now
    · exact settled.honest seen before
    · rw [List.mem_singleton.mp now]
      exact intact.watched empty
  | overtaken here moved =>
    have unmoved := settled.reading
    rw [here] at unmoved
    exact absurd unmoved.1 moved

theorem Intact.safe {s : Machine T} (intact : s.Intact) : s.Safe := by
  obtain ⟨path, chain, split⟩ := intact.listed
  have distinct := intact.distinct
  rw [split, List.map_append] at distinct
  refine ⟨fun call member => ?_, distinct.sublist (List.sublist_append_left _ _), intact.honest⟩
  rw [split] at member
  rcases List.mem_append.mp member with wasTaken | onPath
  · exact .inr wasTaken
  · exact .inl ⟨chain.linked_iff.mpr (List.mem_map_of_mem onPath), chain.cell_of_mem onPath⟩

/-- Extending a node that has left the list loses the call that does it. -/
theorem Settled.extends_unsafe {s : Machine T} (settled : s.Settled) {task : Nat} {curr : Addr}
    {call : Call T} {node : AtmcNode T} (here : s.appender task = .casNext curr call)
    (offList : ¬ Linked s.cell s.head curr) :
    ¬ ((s.returns task call).fill curr node call.1).observe.Safe := by
  rintro ⟨kept, _, _⟩
  have mine : (s.appender task).call = some call := by rw [here]; rfl
  obtain ⟨path, chain, split⟩ := settled.listed
  have unreturned := (settled.pending mine).2.2
  rw [split, List.map_append, List.mem_append] at unreturned
  rcases kept call (List.mem_append_right _ (List.mem_singleton_self call)) with
    ⟨linked, _⟩ | wasTaken
  · have same : Chain ((s.returns task call).fill curr node call.1).observe.cell s.head path := by
      refine chain.frame fun address member => ?_
      have different : address ≠ curr := by
        rintro rfl
        exact offList (chain.linked_iff.mpr member)
      simp [cell, Machine.observe, fill, Machine.returns, goto, different]
    exact unreturned (.inr (same.linked_iff.mp linked))
  · exact unreturned (.inl (List.mem_map_of_mem wasTaken))

/-- Taking a head whose link was filled since it was read loses the rest of the list. -/
theorem Settled.takes_unsafe {s : Machine T} (settled : s.Settled) {head : Addr}
    {next : Option Addr} {node : AtmcNode T} (here : s.taker = .casHead head next)
    (found : s.heap head = some node) (stale : node.next ≠ next) :
    ¬ (s.takes head next node).observe.Safe := by
  rintro ⟨kept, _, _⟩
  have reading := settled.reading
  rw [here] at reading
  obtain ⟨first, links⟩ := reading
  have cellEq : s.cell head = some (node.val, node.next) := by simp [cell, found]
  -- The stale link can only be null, so the head becomes null.
  have wasNull : next = none := by
    cases next with
    | none => rfl
    | some later =>
      obtain ⟨value, again⟩ := links later rfl
      rw [cellEq, Option.some.injEq, Prod.mk.injEq] at again
      exact absurd again.2 stale
  obtain ⟨filled, isFilled⟩ : ∃ filled, node.next = some filled := by
    cases link : node.next with
    | none => exact absurd (link.trans wasNull.symm) stale
    | some filled => exact ⟨filled, rfl⟩
  obtain ⟨path, chain, split⟩ := settled.listed
  rw [first] at chain
  obtain ⟨value, after, rest, rfl, headCell, later⟩ := chain.eq_cons
  rw [cellEq, isFilled, Option.some.injEq, Prod.mk.injEq] at headCell
  obtain ⟨rfl, rfl⟩ := headCell
  obtain ⟨lostValue, beyond, others, rfl, _, _⟩ := later.eq_cons
  have distinct := settled.distinct
  have member : (filled, lostValue) ∈ s.returned := by simp [split]
  rw [split, List.map_append, List.nodup_append] at distinct
  obtain ⟨_, pathDistinct, apart⟩ := distinct
  rcases kept (filled, lostValue) member with ⟨linked, _⟩ | wasTaken
  · change Linked _ next filled at linked
    rw [wasNull] at linked
    cases linked
  · rcases List.mem_append.mp wasTaken with before | now
    · exact apart filled (List.mem_map_of_mem before) filled (by simp) rfl
    · simp only [List.mem_singleton, Prod.mk.injEq] at now
      simp [now.1] at pathDistinct

/-- Guarded steps keep the list together, and any other step loses a message at once. -/
theorem exactGuard : (machine T).ExactGuard Guarded Intact Safe where
  initial valid := by
    rw [valid]
    exact intact_new
  preserved {s action after} intact guarded stepped := by
    obtain ⟨acted, did, rfl⟩ := Option.map_eq_some_iff.mp stepped
    exact ((act_effect did).settled intact guarded).observe
  sound intact := intact.safe
  sharp {s action after} intact unguarded stepped := by
    obtain ⟨acted, did, rfl⟩ := Option.map_eq_some_iff.mp stepped
    have effect := act_effect did
    cases effect with
    | allocates idle => exact absurd trivial unguarded
    | moves sameCall harmless => exact absurd harmless unguarded
    | starts here empty => exact absurd (by simp [Guarded, here]) unguarded
    | «extends» here found last =>
      simp only [Guarded, here] at unguarded
      exact intact.extends_unsafe here fun onList => unguarded fun _ => onList
    | begins idle => exact absurd trivial unguarded
    | readsHead here first => exact absurd (by simp [Guarded, here]) unguarded
    | readsNext here found => exact absurd (by simp [Guarded, here]) unguarded
    | takes here first found =>
      simp only [Guarded, here] at unguarded
      refine intact.takes_unsafe here found fun fresh => unguarded fun other same => ?_
      rw [found, Option.some.injEq] at same
      rw [← same, fresh]
    | findsEmpty here empty => exact absurd (by simp [Guarded, here]) unguarded
    | overtaken here moved =>
      have reading := intact.reading
      rw [here] at reading
      exact absurd reading.1 moved

/-- In every interleaving of appending tasks and one taking task, no message is lost
or duplicated and every `None` is honest in all states reached, exactly when all
steps meet the guard. -/
theorem messages_safe_iff {trail : List (Machine T × Action T)} {s : Machine T}
    (run : (machine T).Run trail s) :
    System.Run.AllStates Safe trail s ↔ System.Run.AllSteps Guarded trail :=
  exactGuard.safe_iff_guarded run

/-- A second message is linked behind the first, and the first is taken. -/
theorem messages_safe_iff_taken :
    let actions : List (Action Nat) := [.append 0 7, .appendStep 0, .appendStep 0, .append 1 8,
      .appendStep 1, .appendStep 1, .appendStep 1, .appendStep 1, .take, .takeStep, .takeStep,
      .takeStep]
    ∃ s, (machine Nat).Run (System.trailOf Machine.step new actions) s ∧
      s.returned = [(0, 7), (1, 8)] ∧ s.taken = [(0, 7)] ∧
      System.Run.AllStates Safe (System.trailOf Machine.step new actions) s := by
  intro actions
  have ran : (System.execute Machine.step new actions).map (fun s => (s.returned, s.taken)) =
      some ([(0, 7), (1, 8)], [(0, 7)]) := rfl
  obtain ⟨s, executed, facts⟩ := Option.map_eq_some_iff.mp ran
  rw [Prod.mk.injEq] at facts
  have run := System.run_of_execute executed
  refine ⟨s, run, facts.1, facts.2, (messages_safe_iff run).mpr ?_⟩
  rintro entry (_ | ⟨_, _ | ⟨_, _ | ⟨_, _ | ⟨_, _ | ⟨_, _ | ⟨_, _ | ⟨_, _ | ⟨_, _ | ⟨_, _ | ⟨_,
    _ | ⟨_, _ | ⟨_, impossible⟩⟩⟩⟩⟩⟩⟩⟩⟩⟩⟩⟩)
  -- The two steps that the guard speaks of: a link is filled, and the head is swung.
  rotate_left 7
  · exact fun _ => .here
  rotate_left 3
  · intro node stored
    cases stored
    rfl
  · cases impossible
  all_goals trivial

/-- `take_first` reads the null link of the only node, a second message is linked
behind that node, and swinging the head to null drops it. -/
theorem message_lost :
    ∃ s, (machine Nat).Reachable s ∧ s.returned = [(0, 1), (1, 2)] ∧ s.taken = [(0, 1)] ∧
      s.head = none ∧ ¬ s.Safe := by
  have ran : (System.execute Machine.step (new : Machine Nat)
      [.append 0 1, .appendStep 0, .appendStep 0, .take, .takeStep, .takeStep, .append 1 2,
        .appendStep 1, .appendStep 1, .appendStep 1, .appendStep 1, .takeStep]).map
      (fun s => (s.head, s.returned, s.taken)) = some (none, [(0, 1), (1, 2)], [(0, 1)]) := rfl
  obtain ⟨s, executed, facts⟩ := Option.map_eq_some_iff.mp ran
  simp only [Prod.mk.injEq] at facts
  obtain ⟨empty, returned, taken⟩ := facts
  refine ⟨s, System.reachable_of_execute executed, returned, taken, empty, ?_⟩
  rintro ⟨kept, _, _⟩
  rcases kept (1, 2) (by simp [returned]) with ⟨linked, _⟩ | wasTaken
  · rw [empty] at linked
    cases linked
  · simp [taken] at wasTaken

end Machine
end Sipusu.Ds.LinkedList
