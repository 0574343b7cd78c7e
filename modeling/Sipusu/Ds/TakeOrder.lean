import Sipusu.Ds.AppendOnly

/-!
# What is taken in any interleaving

Interleavings whose steps need not meet the guard. Calls of `append` can be lost, but to the
taking task the list looks as if those calls had never returned: what it takes was appended,
comes once and in the order of linking, and lies in a node that was not freed before. A walk of
`append` may still stand on a freed node; the code has no result for its next step, and the
interleavings end before it.
-/

namespace Sipusu.Ds.LinkedList

open Sipusu.Foundation

variable {T : Type}

/-- The address that a task has come to in its walk down the list. -/
def AppendPc.curr : AppendPc T → Option Addr
  | .testNext curr _ => curr
  | .follow curr _ | .casNext curr _ => some curr
  | .idle | .loadHead _ | .casHead _ | .reloadHead _ | .crashed => none

namespace Machine

/-- The machine as if only the calls taken and those of a path had returned. -/
def without (s : Machine T) (path : List (Call T)) : Machine T :=
  { s with returned := s.taken ++ path }

/-- A pointer leads to an address. -/
inductive Points (s : Machine T) : Addr → Prop where
  | head {address} (first : s.head = some address) : Points s address
  | link {address source value} (filled : s.cell source = some (value, some address)) :
      Points s address
  | walk {address task} (here : (s.appender task).curr = some address) : Points s address

/-- What every step keeps. The calls taken and those on the list are some of the calls that
have returned, in their order, and the others do not matter to the tasks. -/
structure Loose (s : Machine T) : Prop where
  kept : ∃ path, (s.taken ++ path).Sublist s.returned ∧ (s.without path).Intact
  allocated : ∀ call ∈ s.returned, call.1 < s.fresh
  unreturned : ∀ {task call}, (s.appender task).call = some call →
    call.1 ∉ s.returned.map Prod.fst
  known : ∀ {address}, s.Points address → address ∈ s.returned.map Prod.fst

section Steps

variable {s after : Machine T} {action : Action T}

theorem loose_new : (new : Machine T).Loose where
  kept := ⟨[], List.Sublist.refl _, intact_new⟩
  allocated := by simp [new]
  unreturned running := by cases running
  known points := by
    cases points with
    | head first => cases first
    | link filled => cases filled
    | walk here => cases here

/-- No step looks at the calls that have returned. -/
theorem Effect.without (effect : Effect s action after) (path : List (Call T)) :
    ∃ added, after.returned = s.returned ++ added ∧
      Effect (s.without path) action { after with returned := s.taken ++ path ++ added } := by
  have quiet {next : Machine T} (same : next.returned = s.returned)
      (unseen : Effect (s.without path) action { next with returned := s.taken ++ path }) :
      ∃ added, next.returned = s.returned ++ added ∧
        Effect (s.without path) action { next with returned := s.taken ++ path ++ added } :=
    ⟨[], by rw [same, List.append_nil], by rw [List.append_nil]; exact unseen⟩
  cases effect with
  | allocates idle => exact quiet rfl (.allocates idle)
  | moves sameCall harmless => exact quiet rfl (.moves sameCall harmless)
  | @starts _ call here empty => exact ⟨[call], rfl, .starts here empty⟩
  | @«extends» _ _ call _ here found last => exact ⟨[call], rfl, .extends here found last⟩
  | begins idle => exact quiet rfl (.begins idle)
  | readsHead here first => exact quiet rfl (.readsHead here first)
  | readsNext here found => exact quiet rfl (.readsNext here found)
  | takes here first found => exact quiet rfl (.takes here first found)
  | findsEmpty here empty => exact quiet rfl (.findsEmpty here empty)
  | overtaken here moved => exact quiet rfl (.overtaken here moved)

/-- What a step of an appending task comes to in its walk, a pointer led to. -/
theorem points_of_appendStep {task : Nat} (stepped : s.appendStep task = some after)
    {address : Addr} (here : (after.appender task).curr = some address) : s.Points address := by
  unfold appendStep at stepped
  cases pc : s.appender task with
  | idle | crashed => simp [pc] at stepped
  | loadHead call =>
    cases head : s.head <;> simp only [pc, head, Option.some.injEq] at stepped <;> subst stepped <;>
      rw [goto_self] at here <;> cases here
  | casHead call =>
    cases head : s.head with
    | none =>
      simp only [pc, head, Option.some.injEq] at stepped
      subst stepped
      have idle : Machine.appender { s.returns task call with head := some call.1 } task = .idle :=
        goto_self s task .idle
      rw [idle] at here
      cases here
    | some first =>
      simp only [pc, head, Option.some.injEq] at stepped
      subst stepped
      rw [goto_self] at here
      cases here
  | reloadHead call =>
    simp only [pc, Option.some.injEq] at stepped
    subst stepped
    rw [goto_self] at here
    exact .head here
  | testNext curr call =>
    cases curr with
    | none =>
      simp only [pc, Option.some.injEq] at stepped
      subst stepped
      rw [goto_self] at here
      cases here
    | some curr =>
      have looks : (s.appender task).curr = some curr := by rw [pc]; rfl
      have walked : s.Points curr := .walk looks
      simp only [pc, Option.bind_eq_bind, Option.bind_eq_some_iff] at stepped
      obtain ⟨node, _, stepped⟩ := stepped
      cases link : node.next <;> simp only [link, Option.some.injEq] at stepped <;>
        subst stepped <;> rw [goto_self] at here <;> cases here <;> exact walked
  | follow curr call =>
    simp only [pc, Option.bind_eq_bind, Option.bind_eq_some_iff, Option.some.injEq] at stepped
    obtain ⟨node, found, rfl⟩ := stepped
    rw [goto_self] at here
    have filled : node.next = some address := here
    have linked : s.cell curr = some (node.val, some address) := by simp [cell, found, filled]
    exact .link linked
  | casNext curr call =>
    simp only [pc, Option.bind_eq_bind, Option.bind_eq_some_iff] at stepped
    obtain ⟨node, found, stepped⟩ := stepped
    cases link : node.next with
    | none =>
      simp only [link, Option.some.injEq] at stepped
      subst stepped
      have idle : ((s.returns task call).fill curr node call.1).appender task = .idle :=
        goto_self s task .idle
      rw [idle] at here
      cases here
    | some next =>
      simp only [link, Option.some.injEq] at stepped
      subst stepped
      rw [goto_self] at here
      cases here

/-- The other tasks stand where they stood. -/
theorem Effect.appender_ne {task other : Nat} (effect : Effect s (.appendStep task) after)
    (different : other ≠ task) : after.appender other = s.appender other := by
  cases effect with
  | moves => exact goto_ne s different _
  | starts => exact goto_ne s different .idle
  | «extends» => exact goto_ne s different .idle

/-- Pointers lead where they led, unless a task has moved on. -/
theorem Points.of_frame {address : Addr} (points : after.Points address)
    (head : after.head = s.head) (cells : after.cell = s.cell)
    (walks : ∀ {other address}, (after.appender other).curr = some address → s.Points address) :
    s.Points address := by
  cases points with
  | head first => exact .head (head ▸ first)
  | link filled => exact .link (cells ▸ filled)
  | walk here => exact walks here

/-- After a step pointers lead where they led before, or to the node of a call that returns. -/
theorem points_of_act (reading : Reading s.cell s.head s.taker) (acted : s.act action = some after)
    {address : Addr} (points : after.Points address) :
    s.Points address ∨ ∃ call, after.returned = s.returned ++ [call] ∧ call.1 = address := by
  have effect := act_effect acted
  have walked (moved : Nat) (isStep : action = .appendStep moved) {other : Nat} {address : Addr}
      (here : (after.appender other).curr = some address) : s.Points address := by
    subst isStep
    by_cases mine : other = moved
    · subst mine
      exact points_of_appendStep acted here
    · rw [effect.appender_ne mine] at here
      exact .walk here
  cases effect with
  | @allocates task val idle =>
    refine .inl ?_
    cases points with
    | head first => exact .head first
    | @link source value filled =>
      by_cases fresh : source = s.fresh
      · simp [cell, allocate, goto, fresh] at filled
      · simp only [cell, allocate, goto, Function.update_of_ne fresh] at filled
        exact .link filled
    | @walk other here =>
      by_cases mine : other = task
      · rw [mine, goto_self] at here
        cases here
      · rw [goto_ne _ mine] at here
        exact .walk here
  | @moves task pc _ _ =>
    exact .inl (points.of_frame rfl rfl (walked task rfl))
  | @starts task call here empty =>
    cases points with
    | head first => exact .inr ⟨call, rfl, Option.some.inj first⟩
    | link filled => exact .inl (.link filled)
    | walk at_ => exact .inl (walked task rfl at_)
  | @«extends» task curr call node here found last =>
    cases points with
    | head first => exact .inl (.head first)
    | @link source value filled =>
      by_cases same : source = curr
      · simp only [cell, fill, same, Function.update_self, Option.map_some, Option.some.injEq,
          Prod.mk.injEq] at filled
        exact .inr ⟨call, rfl, filled.2⟩
      · simp only [cell, fill, Function.update_of_ne same] at filled
        exact .inl (.link filled)
    | walk at_ => exact .inl (walked task rfl at_)
  | begins | readsHead | readsNext | findsEmpty | overtaken =>
    exact .inl (points.of_frame rfl rfl fun here => .walk (s := s) here)
  | @takes head next node here first found =>
    rw [here] at reading
    cases points with
    | head now =>
      obtain ⟨value, filled⟩ := reading.2 address now
      exact .inl (.link filled)
    | link filled => exact .inl (.link filled)
    | walk at_ => exact .inl (.walk at_)

/-- Taking a head whose link was filled since it was read empties the list. -/
theorem Settled.takes_stale (settled : s.Settled) {head : Addr} {next : Option Addr}
    {node : AtmcNode T} (here : s.taker = .casHead head next) (first : s.head = some head)
    (found : s.heap head = some node) (stale : node.next ≠ next) :
    next = none ∧ ∃ rest, s.returned = s.taken ++ (head, node.val) :: rest := by
  have reading := settled.reading
  rw [here] at reading
  have cellEq : s.cell head = some (node.val, node.next) := by simp [cell, found]
  constructor
  · cases link : next with
    | none => rfl
    | some later =>
      obtain ⟨value, filled⟩ := reading.2 later link
      rw [cellEq, Option.some.injEq, Prod.mk.injEq] at filled
      exact absurd (filled.2.trans link.symm) stale
  · obtain ⟨path, chain, split⟩ := settled.listed
    rw [first] at chain
    obtain ⟨value, _, rest, rfl, headCell, _⟩ := chain.eq_cons
    rw [cellEq, Option.some.injEq, Prod.mk.injEq] at headCell
    exact ⟨rest, headCell.1 ▸ split⟩

/-- With some calls fewer, and the list emptied, the machine is still in order. -/
theorem Settled.emptied (settled : s.Settled) {rest : List (Call T)}
    (split : s.returned = after.taken ++ rest) (returned : after.returned = after.taken)
    (tasks : after.appender = s.appender) (cells : after.cell = s.cell)
    (fresh : after.fresh = s.fresh) (nones : after.nones = s.nones) (head : after.head = none)
    (taker : after.taker = .idle) : after.Settled := by
  have subset : ∀ call ∈ after.returned, call ∈ s.returned := by
    intro call member
    rw [returned] at member
    rw [split]
    exact List.mem_append_left _ member
  refine ⟨⟨[], head, by rw [returned, List.append_nil]⟩, ?_, ?_, ?_, ?_, ?_, ?_⟩
  · have distinct := settled.distinct
    rw [split, List.map_append] at distinct
    rw [returned]
    exact distinct.sublist (List.sublist_append_left _ _)
  · intro call member
    rw [fresh]
    exact settled.allocated call (subset call member)
  · intro task call running
    rw [tasks] at running
    obtain ⟨unlinked, bound, unreturned⟩ := settled.pending running
    rw [cells, fresh]
    refine ⟨unlinked, bound, fun member => unreturned ?_⟩
    obtain ⟨rival, listed, same⟩ := List.mem_map.mp member
    exact List.mem_map.mpr ⟨rival, subset rival listed, same⟩
  · intro task other call rival running rivals same
    rw [tasks] at running rivals
    exact settled.separate running rivals same
  · rw [taker]
    trivial
  · rw [nones]
    exact settled.honest

/-- A node that has left the list may be extended: to the taking task nothing happens. -/
theorem Settled.extends_off (settled : s.Settled) {task : Nat} {curr : Addr} {call : Call T}
    {node : AtmcNode T} (here : s.appender task = .casNext curr call)
    (offList : ¬ Linked s.cell s.head curr)
    (apart : ∀ {other rival}, (s.appender other).call = some rival → rival.1 ≠ curr) :
    Settled { (s.returns task call).fill curr node call.1 with returned := s.returned } := by
  have mine : (s.appender task).call = some call := by rw [here]; rfl
  have cells : ∀ address, address ≠ curr →
      Machine.cell { (s.returns task call).fill curr node call.1 with returned := s.returned }
        address = s.cell address := by
    intro address different
    simp [cell, fill, Machine.returns, goto, different]
  obtain ⟨path, chain, split⟩ := settled.listed
  refine ⟨⟨path, ?_, split⟩, settled.distinct, settled.allocated, ?_, ?_, ?_, settled.honest⟩
  · refine chain.frame fun address member => cells address ?_
    rintro rfl
    exact offList (chain.linked_iff.mpr member)
  · intro other rival running
    obtain ⟨before, _⟩ := call_of_returns settled mine running
    rw [cells _ (apart before)]
    exact settled.pending before
  · intro one other first second inFirst inSecond same
    exact settled.separate (call_of_returns settled mine inFirst).1
      (call_of_returns settled mine inSecond).1 same
  · refine settled.reading.mono fun {first value later} isFirst filled => ?_
    rw [cells, filled]
    rintro rfl
    exact offList (isFirst ▸ .here)

/-- A guarded step of the machine without the lost calls is a step of it. -/
theorem Loose.kept_of_guarded (loose : s.Loose) (effect : Effect s action after)
    (guarded : s.Guarded action) :
    ∃ path, (after.taken ++ path).Sublist after.returned ∧
      (after.observe.without path).Intact := by
  obtain ⟨path, among, intact⟩ := loose.kept
  obtain ⟨added, grown, unseen⟩ := effect.without path
  have settled := unseen.settled intact (by cases action <;> exact guarded)
  obtain ⟨onward, chain, split⟩ := settled.listed
  have listed : s.taken ++ path ++ added = after.taken ++ onward := split
  refine ⟨onward, ?_, ?_⟩
  · rw [← listed, grown]
    exact among.append_right added
  · rw [listed] at settled
    exact settled.observe

theorem Loose.kept_step (loose : s.Loose) (effect : Effect s action after) :
    ∃ path, (after.taken ++ path).Sublist after.returned ∧
      (after.observe.without path).Intact := by
  by_cases guarded : s.Guarded action
  · exact loose.kept_of_guarded effect guarded
  obtain ⟨path, among, intact⟩ := loose.kept
  cases effect with
  | allocates | begins => exact absurd trivial guarded
  | readsHead here | readsNext here | findsEmpty here =>
    exact absurd (by simp [Guarded, here]) guarded
  | overtaken here moved =>
    have reading := intact.reading
    rw [show (s.without path).taker = s.taker from rfl, here] at reading
    exact absurd reading.1 moved
  | moves _ harmless => exact absurd harmless guarded
  | starts here => exact absurd (by simp [Guarded, here]) guarded
  | @«extends» task curr call node here found last =>
    have offList : ¬ Linked s.cell s.head curr := by
      intro linked
      exact guarded (by simp [Guarded, here, linked])
    refine ⟨path, among.trans (List.sublist_append_left _ _), ?_⟩
    refine (intact.extends_off here offList fun {other rival} running same => ?_).observe
    have looks : (s.appender task).curr = some curr := by rw [here]; rfl
    have walked : s.Points curr := .walk looks
    exact loose.unreturned running (same ▸ loose.known walked)
  | @takes head next node here first found =>
    have stale : node.next ≠ next := by
      intro same
      exact guarded (by simp [Guarded, here, found, same])
    obtain ⟨rfl, rest, split⟩ := intact.takes_stale here first found stale
    have front : s.taken ++ path = s.taken ++ [(head, node.val)] ++ rest := by
      rw [List.append_assoc]
      exact split
    refine ⟨[], ?_, ?_⟩
    · rw [List.append_nil]
      refine List.Sublist.trans ?_ among
      rw [front]
      exact List.sublist_append_left _ _
    · have emptied : ((s.takes head none node).without []).Settled :=
        intact.emptied front (List.append_nil _) rfl rfl rfl rfl rfl rfl
      exact emptied.observe

/-- What a step does to the calls of `append`. -/
inductive Calling (s : Machine T) : Action T → Machine T → Prop where
  | begins {task val next} (idle : s.appender task = .idle)
      (returned : next.returned = s.returned) (fresh : next.fresh = s.fresh + 1)
      (tasks : next.appender = Function.update s.appender task (.loadHead (s.fresh, val))) :
      Calling s (.append task val) next
  | returns {task call next} (running : (s.appender task).call = some call)
      (returned : next.returned = s.returned ++ [call]) (fresh : next.fresh = s.fresh)
      (tasks : next.appender = Function.update s.appender task .idle) :
      Calling s (.appendStep task) next
  | keeps {other next} (begins : ∀ task, other.callOf task s = none)
      (returned : next.returned = s.returned) (fresh : next.fresh = s.fresh)
      (tasks : ∀ {task rival}, (next.appender task).call = some rival →
        (s.appender task).call = some rival) :
      Calling s other next

theorem Effect.calling (effect : Effect s action after) : s.Calling action after := by
  cases effect with
  | allocates idle => exact .begins idle rfl rfl rfl
  | moves sameCall _ =>
    exact .keeps (fun _ => rfl) rfl rfl fun running => (call_of_goto sameCall running).1
  | starts here _ => exact .returns (by rw [here]; rfl) rfl rfl rfl
  | «extends» here _ _ => exact .returns (by rw [here]; rfl) rfl rfl rfl
  | begins | readsHead | readsNext | takes | findsEmpty | overtaken =>
    exact .keeps (fun _ => rfl) rfl rfl id

/-- A call that runs after one task has gone on runs there, or ran before. -/
theorem call_of_update {task : Nat} {pc : AppendPc T}
    (tasks : after.appender = Function.update s.appender task pc) {other : Nat} {rival : Call T}
    (running : (after.appender other).call = some rival) :
    other = task ∧ pc.call = some rival ∨
      other ≠ task ∧ (s.appender other).call = some rival := by
  rw [tasks] at running
  by_cases mine : other = task
  · rw [mine, Function.update_self] at running
    exact .inl ⟨mine, running⟩
  · rw [Function.update_of_ne mine] at running
    exact .inr ⟨mine, running⟩

/-- What was taken stays taken. -/
theorem taken_isPrefix (stepped : s.step action = some after) : s.taken <+: after.taken := by
  obtain ⟨acted, did, rfl⟩ := Option.map_eq_some_iff.mp stepped
  cases act_effect did with
  | takes => exact List.prefix_append ..
  | allocates | moves | starts | «extends» | begins | readsHead | readsNext | findsEmpty
    | overtaken => exact List.prefix_rfl

/-- Every step keeps the order of what is taken. -/
theorem Loose.preserved (loose : s.Loose) (stepped : s.step action = some after) :
    after.Loose := by
  obtain ⟨acted, did, rfl⟩ := Option.map_eq_some_iff.mp stepped
  have effect := act_effect did
  obtain ⟨path, _, intact⟩ := loose.kept
  have reading : Reading s.cell s.head s.taker := intact.reading
  have pending {task : Nat} {call : Call T} (running : (s.appender task).call = some call) :
      call.1 < s.fresh := (intact.pending running).2.1
  have calls : (∀ call ∈ acted.returned, call.1 < acted.fresh) ∧
      (∀ {task call}, (acted.appender task).call = some call →
        call.1 ∉ acted.returned.map Prod.fst) ∧
      ∀ {address}, address ∈ s.returned.map Prod.fst → address ∈ acted.returned.map Prod.fst := by
    cases effect.calling with
    | begins idle returned fresh tasks =>
      rw [returned, fresh]
      refine ⟨fun call member => Nat.lt_succ_of_lt (loose.allocated call member), ?_, id⟩
      intro other rival running member
      rcases call_of_update tasks running with ⟨_, mine⟩ | ⟨_, before⟩
      · cases mine
        obtain ⟨call, listed, same⟩ := List.mem_map.mp member
        exact Nat.lt_irrefl _ (same ▸ loose.allocated call listed)
      · exact loose.unreturned before member
    | @returns task call _ mine returned fresh tasks =>
      rw [returned, fresh, List.map_append]
      refine ⟨fun other member => ?_, ?_, List.mem_append_left _⟩
      · rcases List.mem_append.mp member with before | now
        · exact loose.allocated other before
        · rw [List.mem_singleton.mp now]
          exact pending mine
      · intro other rival running member
        rcases call_of_update tasks running with ⟨_, none⟩ | ⟨different, before⟩
        · cases none
        · rcases List.mem_append.mp member with listed | now
          · exact loose.unreturned before listed
          · have same : rival.1 = call.1 := by simpa using now
            exact different (intact.separate before mine same)
    | keeps _ returned fresh tasks =>
      rw [returned, fresh]
      exact ⟨loose.allocated, fun running => loose.unreturned (tasks running), id⟩
  refine ⟨loose.kept_step effect, calls.1, calls.2.1, fun {address} points => ?_⟩
  have unobserved : acted.Points address := points.of_frame rfl rfl fun here => .walk (s := acted) here
  rcases points_of_act reading did unobserved with before | ⟨call, returned, rfl⟩
  · exact calls.2.2 (loose.known before)
  · change call.1 ∈ acted.returned.map Prod.fst
    rw [returned]
    simp

theorem looseInvariant : (machine T).Invariant Loose where
  initial valid := by
    rw [valid]
    exact loose_new
  preserved loose stepped := loose.preserved stepped

end Steps

/-- The calls that tasks have begun lie at addresses of their own, and a call that runs is one
of its task's. -/
structure Begun (trail : List (Machine T × Action T)) (s : Machine T) : Prop where
  allocated : ∀ {task call}, call ∈ callsOf task trail → call.1 < s.fresh
  apart : ∀ {task other call rival}, call ∈ callsOf task trail → rival ∈ callsOf other trail →
    call.1 = rival.1 → task = other
  running : ∀ {task call}, (s.appender task).call = some call → call ∈ callsOf task trail
  returned : ∀ call ∈ s.returned, ∃ task, call ∈ callsOf task trail
  /-- Each task's calls return in the order in which it began them. -/
  ordered : ∀ task, List.Sublist
    ((s.returned.filter fun call => call.1 ∈ (callsOf task trail).map Prod.fst) ++
      (s.appender task).call.toList) (callsOf task trail)

section Runs

variable {trail : List (Machine T × Action T)} {s after : Machine T} {action : Action T}

theorem begun_new : Begun [] (new : Machine T) where
  allocated listed := by cases listed
  apart listed := by cases listed
  running inCall := by cases inCall
  returned := by simp [new]
  ordered _ := .slnil

/-- A step that begins no call and lets none return. -/
theorem Begun.keeps (begun : Begun trail s) (begins : ∀ task, action.callOf task s = none)
    (returned : after.returned = s.returned) (fresh : after.fresh = s.fresh)
    (tasks : ∀ {task rival}, (after.appender task).call = some rival →
      (s.appender task).call = some rival) : Begun (trail ++ [(s, action)]) after := by
  have same (task : Nat) : callsOf task (trail ++ [(s, action)]) = callsOf task trail := by
    rw [callsOf_append, begins, Option.toList_none, List.append_nil]
  refine ⟨?_, ?_, ?_, ?_, ?_⟩ <;> simp only [same, returned, fresh]
  · exact begun.allocated
  · exact begun.apart
  · exact fun inCall => begun.running (tasks inCall)
  · exact begun.returned
  · intro task
    refine List.Sublist.trans (List.Sublist.append_left ?_ _) (begun.ordered task)
    cases own : (after.appender task).call with
    | none => exact List.nil_sublist _
    | some rival => rw [tasks own]

/-- A call begins at a fresh address, behind the earlier calls of its task. -/
theorem Begun.begins (begun : Begun trail s) {task : Nat} {val : T}
    (idle : s.appender task = .idle) (old : ∀ call ∈ s.returned, call.1 < s.fresh)
    (returned : after.returned = s.returned) (fresh : after.fresh = s.fresh + 1)
    (tasks : after.appender = Function.update s.appender task (.loadHead (s.fresh, val))) :
    Begun (trail ++ [(s, .append task val)]) after := by
  have own : callsOf task (trail ++ [(s, .append task val)]) =
      callsOf task trail ++ [(s.fresh, val)] := by
    rw [callsOf_append, Action.callOf, if_pos rfl, Option.toList_some]
  have others {other : Nat} (different : other ≠ task) :
      callsOf other (trail ++ [(s, .append task val)]) = callsOf other trail := by
    rw [callsOf_append, Action.callOf, if_neg (Ne.symm different), Option.toList_none,
      List.append_nil]
  have listed {other : Nat} {call : Call T}
      (member : call ∈ callsOf other (trail ++ [(s, .append task val)])) :
      call ∈ callsOf other trail ∨ other = task ∧ call = (s.fresh, val) := by
    by_cases mine : other = task
    · subst mine
      rw [own, List.mem_append, List.mem_singleton] at member
      exact member.imp_right fun now => ⟨rfl, now⟩
    · rw [others mine] at member
      exact .inl member
  have grows {other : Nat} {call : Call T} (member : call ∈ callsOf other trail) :
      call ∈ callsOf other (trail ++ [(s, .append task val)]) := by
    rw [callsOf_append]
    exact List.mem_append_left _ member
  refine ⟨?_, ?_, ?_, ?_, ?_⟩
  · intro other call member
    rw [fresh]
    rcases listed member with before | ⟨_, rfl⟩
    · exact Nat.lt_succ_of_lt (begun.allocated before)
    · exact Nat.lt_succ_self _
  · intro one other call rival inOne inOther same
    rcases listed inOne with before | ⟨rfl, rfl⟩ <;>
      rcases listed inOther with rivalBefore | ⟨rfl, rfl⟩
    · exact begun.apart before rivalBefore same
    · exact absurd same (Nat.ne_of_lt (begun.allocated before))
    · exact absurd same.symm (Nat.ne_of_lt (begun.allocated rivalBefore))
    · rfl
  · intro other call inCall
    rcases call_of_update tasks inCall with ⟨rfl, now⟩ | ⟨_, before⟩
    · rw [own, ← Option.some.inj now]
      exact List.mem_append_right _ (List.mem_singleton_self _)
    · exact grows (begun.running before)
  · intro call member
    rw [returned] at member
    obtain ⟨other, before⟩ := begun.returned call member
    exact ⟨other, grows before⟩
  · intro other
    by_cases mine : other = task
    · subst mine
      have same : (s.returned.filter fun call =>
            call.1 ∈ (callsOf other trail ++ [(s.fresh, val)]).map Prod.fst) =
          s.returned.filter fun call => call.1 ∈ (callsOf other trail).map Prod.fst := by
        refine List.filter_congr fun call member => ?_
        have different : call.1 ≠ s.fresh := Nat.ne_of_lt (old call member)
        simp [different]
      have before := begun.ordered other
      rw [idle, AppendPc.call, Option.toList_none, List.append_nil] at before
      rw [own, returned, same, tasks, Function.update_self]
      exact before.append_right _
    · rw [others mine, returned, tasks, Function.update_of_ne mine]
      exact begun.ordered other

/-- The call that returns is the last that its task has begun. -/
theorem Begun.returns (begun : Begun trail s) {task : Nat} {call : Call T}
    (mine : (s.appender task).call = some call) (returned : after.returned = s.returned ++ [call])
    (fresh : after.fresh = s.fresh)
    (tasks : after.appender = Function.update s.appender task .idle) :
    Begun (trail ++ [(s, .appendStep task)]) after := by
  have same (other : Nat) : callsOf other (trail ++ [(s, .appendStep task)]) = callsOf other trail :=
    (callsOf_append other trail s (.appendStep task)).trans (List.append_nil _)
  refine ⟨?_, ?_, ?_, ?_, ?_⟩ <;> simp only [same, fresh]
  · exact begun.allocated
  · exact begun.apart
  · intro other rival inCall
    rcases call_of_update tasks inCall with ⟨_, none⟩ | ⟨_, before⟩
    · cases none
    · exact begun.running before
  · intro other member
    rw [returned, List.mem_append, List.mem_singleton] at member
    rcases member with before | rfl
    · exact begun.returned other before
    · exact ⟨task, begun.running mine⟩
  · intro other
    rw [returned, tasks, List.filter_append]
    by_cases own : other = task
    · subst own
      have listed : call.1 ∈ (callsOf other trail).map Prod.fst :=
        List.mem_map_of_mem (begun.running mine)
      have ordered := begun.ordered other
      rw [mine] at ordered
      rw [Function.update_self, AppendPc.call, Option.toList_none, List.append_nil]
      simpa [listed] using ordered
    · have unlisted : call.1 ∉ (callsOf other trail).map Prod.fst := by
        rintro member
        obtain ⟨rival, listed, equal⟩ := List.mem_map.mp member
        exact own (begun.apart listed (begun.running mine) equal)
      have none : ([call].filter fun call => call.1 ∈ (callsOf other trail).map Prod.fst) = [] := by
        simpa using unlisted
      rw [none, List.append_nil, Function.update_of_ne own]
      exact begun.ordered other

theorem begun_of_run (run : (machine T).Run trail s) : Begun trail s := by
  induction run with
  | initial valid =>
    rw [valid]
    exact begun_new
  | @step trail state action next prior transition inductionHypothesis =>
    have loose := looseInvariant.of_run prior
    obtain ⟨acted, did, rfl⟩ := Option.map_eq_some_iff.mp transition
    have begun : Begun (trail ++ [(state, action)]) acted := by
      cases (act_effect did).calling with
      | begins idle returned fresh tasks =>
        exact inductionHypothesis.begins idle loose.allocated returned fresh tasks
      | returns running returned fresh tasks =>
        exact inductionHypothesis.returns running returned fresh tasks
      | keeps begins returned fresh tasks =>
        exact inductionHypothesis.keeps begins returned fresh tasks
    exact ⟨begun.allocated, begun.apart, begun.running, begun.returned, begun.ordered⟩

/-- A call of a task was begun with its value. -/
theorem begun_of_mem_callsOf {task : Nat} {call : Call T} (member : call ∈ callsOf task trail) :
    .append task call.2 ∈ trail.map Prod.snd := by
  obtain ⟨⟨state, action⟩, listed, isCall⟩ := List.mem_filterMap.mp member
  cases action with
  | append other val =>
    rw [Action.callOf] at isCall
    split at isCall
    · rename_i same
      rw [← Option.some.inj isCall, ← same]
      exact List.mem_map_of_mem listed
    · cases isCall
  | appendStep | take | takeStep => cases isCall

/-- What was taken was linked by calls that have returned, and comes out of different nodes. -/
theorem taken_sublist (run : (machine T).Run trail s) :
    s.taken.Sublist s.returned ∧ (s.taken.map Prod.fst).Nodup := by
  obtain ⟨path, among, intact⟩ := (looseInvariant.of_run run).kept
  have distinct : ((s.taken ++ path).map Prod.fst).Nodup := intact.distinct
  exact ⟨(List.sublist_append_left _ _).trans among,
    distinct.sublist ((List.sublist_append_left _ _).map _)⟩

/-- What holds of the messages taken after any run. -/
structure InOrder (trail : List (Machine T × Action T)) (s : Machine T) : Prop where
  /-- They are taken in the order in which their nodes were linked. -/
  linked : s.taken.Sublist s.returned
  /-- No node is taken twice. -/
  once : (s.taken.map Prod.fst).Nodup
  /-- Each was appended, with this value, by a task. -/
  appended : ∀ call ∈ s.taken, ∃ task, call ∈ callsOf task trail
  /-- Those of one task are taken in the order in which it appended them. -/
  sequenced : ∀ task, (s.taken.filter fun call => call.1 ∈ (callsOf task trail).map Prod.fst).Sublist
    (callsOf task trail)
  /-- The node that the taking task looks at was not taken before, and is there. -/
  unfreed : ∀ address, (s.taker = .loadNext address ∨ ∃ next, s.taker = .casHead address next) →
    address ∉ s.taken.map Prod.fst ∧ ∃ node, s.heap address = some node
  /-- `None` is returned only by a call during which the list was empty. -/
  honest : ∀ seen ∈ s.nones, seen = true

/-- In every interleaving of appending tasks and one taking task in which no pointer is followed
that is null or leads to a freed node, whatever calls are lost, the messages taken were appended,
and come once each, in the order of their linking and of each task, out of nodes that were not
freed before. -/
theorem taken_in_order (defined : (definedMachine T).Run trail s) : InOrder trail s := by
  have run := run_of_defined defined
  have loose := looseInvariant.of_run run
  have begun := begun_of_run run
  obtain ⟨path, among, intact⟩ := loose.kept
  obtain ⟨linked, once⟩ := taken_sublist run
  have distinct : ((s.taken ++ path).map Prod.fst).Nodup := intact.distinct
  refine ⟨linked, once, fun call member => begun.returned call (linked.subset member),
    fun task => ?_, fun address looks => ?_, intact.honest⟩
  · exact (linked.filter _).trans ((List.sublist_append_left _ _).trans (begun.ordered task))
  · have first : s.head = some address := by
      have reading : Reading s.cell s.head s.taker := intact.reading
      rcases looks with here | ⟨next, here⟩ <;> rw [here] at reading
      · exact reading
      · exact reading.1
    obtain ⟨onward, chain, split⟩ := intact.listed
    have same : path = onward := List.append_cancel_left split
    rw [show (s.without path).head = s.head from rfl, first] at chain
    obtain ⟨value, next, rest, rfl, found, _⟩ := chain.eq_cons
    subst same
    constructor
    · rw [List.map_append, List.nodup_append] at distinct
      intro member
      exact distinct.2.2 address member address List.mem_cons_self rfl
    · obtain ⟨node, stored, _⟩ := Option.map_eq_some_iff.mp found
      exact ⟨node, stored⟩

/-- A message is lost between two that are taken. -/
theorem taken_in_order_lossy :
    let actions : List (Action Nat) := [.append 0 1, .appendStep 0, .appendStep 0, .take, .takeStep,
      .takeStep, .append 1 2, .appendStep 1, .appendStep 1, .appendStep 1, .appendStep 1, .takeStep,
      .append 0 3, .appendStep 0, .appendStep 0, .take, .takeStep, .takeStep, .takeStep]
    ∃ s, (definedMachine Nat).Run (System.trailOf definedStep new actions) s ∧
      s.returned = [(0, 1), (1, 2), (2, 3)] ∧ s.taken = [(0, 1), (2, 3)] ∧
      InOrder (System.trailOf definedStep new actions) s := by
  intro actions
  have ran : (System.execute definedStep new actions).map (fun s => (s.returned, s.taken)) =
      some ([(0, 1), (1, 2), (2, 3)], [(0, 1), (2, 3)]) := rfl
  obtain ⟨s, executed, facts⟩ := Option.map_eq_some_iff.mp ran
  rw [Prod.mk.injEq] at facts
  have run := System.run_of_execute executed
  exact ⟨s, run, facts.1, facts.2, taken_in_order run⟩

end Runs
end Machine
end Sipusu.Ds.LinkedList
