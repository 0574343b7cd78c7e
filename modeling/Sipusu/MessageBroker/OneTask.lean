import Sipusu.MessageBroker.Reconnect

/-!
# One task for each client

A task that is at the head of its loop when its dead client is replaced finds the new client
alive there, and goes on beside the task of the new session. A task that awaits then goes on
through the client that was freed.
-/

namespace Sipusu.MessageBroker.Slot

open Sipusu.Foundation Sipusu.Protocol

/-- The task reads from the client with this number, answers it or logs its end. -/
def ActsFor (slot : Slot) (task client : Nat) : Prop :=
  ∃ pc, slot.pc? task = some pc ∧ pc.client? = some client

/-- No two tasks act for the client in the slot. -/
def OneTask (slot : Slot) : Prop :=
  ∀ left right, slot.ActsFor left slot.current → slot.ActsFor right slot.current → left = right

/-- The task uses a client, the one it has loaded or the one that it loads next. -/
def Needs (slot : Slot) (task : Nat) : Prop := ∃ pc, slot.pc? task = some pc ∧ pc.needs

/-- The task goes on through a freed client. -/
def Freed (slot : Slot) (task : Nat) : Prop := ∃ pc, slot.pc? task = some pc ∧ slot.Dangling pc

/-- The condition on steps: `Clients::insert` stores a client in the slot only while no task
uses one. Where the client in the slot is alive it stores none. -/
def Vacated (slot : Slot) : SlotAction → Prop
  | .insert => slot.isStillAlive = some true ∨ ∀ task, ¬ slot.Needs task
  | _ => True

/-- The task may act for the client in the slot, now or later. -/
def Active (slot : Slot) (task : Nat) : Prop := slot.Needs task ∨ slot.ActsFor task slot.current

/-- What such steps keep. -/
structure Single (slot : Slot) : Prop where
  stored : ∀ {task client}, slot.ActsFor task client → client < slot.clients.length
  single : ∀ {left right}, slot.Active left → slot.Active right → left = right
  vacant : slot.handler = .spawning → ∀ task, ¬ slot.Active task
  held : ∀ task, ¬ slot.Freed task

theorem Single.oneTask {slot : Slot} (single : slot.Single) : slot.OneTask := fun _ _ left right =>
  single.single (.inr left) (.inr right)

theorem single_new (now : Nat) (log : List EventType) : (new now log).Single where
  stored acts := by
    obtain ⟨_, stands, _⟩ := acts
    cases stands
  single active := by
    rcases active with ⟨_, stands, _⟩ | ⟨_, stands, _⟩ <;> cases stands
  vacant spawning := by cases spawning
  held := by
    rintro _ ⟨_, stands, _⟩
    cases stands

/-- A step of a task keeps the others apart from it, if it was active itself when it is
afterwards. -/
theorem Single.goto {slot next : Slot} (single : slot.Single) {task : Nat} {before after : TaskPc}
    (stands : slot.pc? task = some before) (tasks : next.tasks = (slot.goto task after).tasks)
    (clients : next.clients.length = slot.clients.length) (handler : next.handler = slot.handler)
    (loaded : ∀ client, after.client? = some client →
      before.client? = some client ∨ client < slot.clients.length)
    (held : ∀ client, after.held? = some client →
      before.held? = some client ∨ client = slot.current)
    (active : after.needs ∨ after.client? = some slot.current → before.needs) : next.Single := by
  have places (other : Nat) : next.pc? other = (slot.goto task after).pc? other := by
    rw [pc?, pc?, tasks]
  have current : next.current = slot.current := by rw [Slot.current, Slot.current, clients]
  have wasActive {other : Nat} (isActive : next.Active other) : slot.Active other := by
    by_cases same : other = task
    · subst same
      refine .inl ⟨before, stands, active ?_⟩
      rcases isActive with ⟨pc, place, needs⟩ | ⟨pc, place, acts⟩ <;>
        rw [places, pc?_goto_self stands] at place <;> cases place
      · exact .inl needs
      · exact .inr (current ▸ acts)
    · rcases isActive with ⟨pc, place, needs⟩ | ⟨pc, place, acts⟩ <;>
        rw [places, pc?_goto_ne slot same] at place
      · exact .inl ⟨pc, place, needs⟩
      · exact .inr ⟨pc, place, current ▸ acts⟩
  refine ⟨?_, ?_, ?_, ?_⟩
  · rintro other client ⟨pc, place, acts⟩
    rw [clients]
    rw [places] at place
    by_cases same : other = task
    · subst same
      rw [pc?_goto_self stands] at place
      cases place
      rcases loaded client acts with already | fresh
      · exact single.stored ⟨before, stands, already⟩
      · exact fresh
    · rw [pc?_goto_ne slot same] at place
      exact single.stored ⟨pc, place, acts⟩
  · intro left right isLeft isRight
    exact single.single (wasActive isLeft) (wasActive isRight)
  · intro spawning other isActive
    exact single.vacant (handler ▸ spawning) other (wasActive isActive)
  · rintro other ⟨pc, place, client, holds, earlier⟩
    rw [current] at earlier
    rw [places] at place
    by_cases same : other = task
    · subst same
      rw [pc?_goto_self stands] at place
      cases place
      rcases held client holds with already | fresh
      · exact single.held other ⟨before, stands, client, already, earlier⟩
      · exact absurd earlier (fresh ▸ Nat.lt_irrefl _)
    · rw [pc?_goto_ne slot same] at place
      exact single.held other ⟨pc, place, client, holds, earlier⟩

/-- A step that moves no task and stores no client. -/
theorem Single.of_same {slot next : Slot} (single : slot.Single) (tasks : next.tasks = slot.tasks)
    (clients : next.clients = slot.clients)
    (handler : next.handler = .spawning → slot.handler = .spawning) : next.Single := by
  have places (other : Nat) : next.pc? other = slot.pc? other := by rw [pc?, pc?, tasks]
  have current : next.current = slot.current := by rw [Slot.current, Slot.current, clients]
  have wasActive {other : Nat} (isActive : next.Active other) : slot.Active other := by
    simpa only [Active, Needs, ActsFor, places, current] using isActive
  refine ⟨?_, fun isLeft isRight => single.single (wasActive isLeft) (wasActive isRight), ?_, ?_⟩
  · rintro other client ⟨pc, place, acts⟩
    rw [clients]
    exact single.stored ⟨pc, places other ▸ place, acts⟩
  · intro spawning other isActive
    exact single.vacant (handler spawning) other (wasActive isActive)
  · rintro other ⟨pc, place, dangling⟩
    rw [Dangling, current] at dangling
    exact single.held other ⟨pc, places other ▸ place, dangling⟩

/-- A new client in the slot has no task yet. -/
theorem Single.insert {slot : Slot} (single : slot.Single) (vacated : ∀ task, ¬ slot.Needs task)
    (session : Session) :
    Single { slot with clients := slot.clients ++ [session], handler := .spawning } := by
  have nobody (task : Nat) :
      ¬ Active { slot with clients := slot.clients ++ [session], handler := .spawning } task := by
    rintro (needs | ⟨pc, stands, acts⟩)
    · exact vacated task needs
    · have known := single.stored ⟨pc, stands, acts⟩
      simp only [current, List.length_append, List.length_singleton] at known
      omega
  refine ⟨?_, fun isLeft => absurd isLeft (nobody _), fun _ => nobody, ?_⟩
  · rintro task client acts
    rw [List.length_append]
    exact Nat.lt_add_right _ (single.stored acts)
  · rintro task ⟨pc, stands, client, holds, _⟩
    exact vacated task ⟨pc, stands, .inr (Option.isSome_of_mem holds)⟩

/-- The task of a new session is alone. -/
theorem Single.spawn {slot : Slot} (single : slot.Single) (spawning : slot.handler = .spawning) :
    Single { slot with tasks := slot.tasks ++ [.head], handler := .idle } := by
  have vacant := single.vacant spawning
  have fresh {task : Nat}
      (isActive : Active { slot with tasks := slot.tasks ++ [.head], handler := .idle } task) :
      task = slot.tasks.length := by
    rcases isActive with ⟨pc, stands, needs⟩ | ⟨pc, stands, acts⟩ <;>
      rcases listed_spawned stands with already | ⟨last, _⟩
    · exact absurd (.inl ⟨pc, already, needs⟩) (vacant task)
    · exact last
    · exact absurd (.inr ⟨pc, already, acts⟩) (vacant task)
    · exact last
  refine ⟨?_, fun isLeft isRight => (fresh isLeft).trans (fresh isRight).symm, nofun, ?_⟩
  · rintro task client ⟨pc, stands, acts⟩
    rcases listed_spawned stands with already | ⟨_, rfl⟩
    · exact single.stored ⟨pc, already, acts⟩
    · cases acts
  · rintro task ⟨pc, stands, client, holds, earlier⟩
    rcases listed_spawned stands with already | ⟨_, rfl⟩
    · exact single.held task ⟨pc, already, client, holds, earlier⟩
    · cases holds

theorem Single.preserved {slot next : Slot} {action : SlotAction} (single : slot.Single)
    (vacated : slot.Vacated action) (stepped : slot.step action = some next) : next.Single := by
  cases step_moved stepped with
  | tick => exact single.of_same rfl rfl id
  | alive stands present living =>
    refine single.goto stands rfl rfl rfl (fun client loaded => .inr ?_) ?_ fun _ => .inl rfl
    · cases loaded
      exact Nat.sub_lt (List.length_pos_of_mem (List.mem_of_getLast? present)) Nat.one_pos
    · exact fun client held => .inr (Option.some.inj held).symm
  | dead stands present late =>
    refine single.goto stands rfl rfl rfl (fun client loaded => .inr ?_) ?_ fun _ => .inl rfl
    · cases loaded
      exact Nat.sub_lt (List.length_pos_of_mem (List.mem_of_getLast? present)) Nat.one_pos
    · exact fun client held => .inr (Option.some.inj held).symm
  | timedOut stands | skipped stands | overflown stands | undecodable stands | written stands =>
    exact single.goto stands rfl rfl rfl nofun nofun fun _ => .inr rfl
  | failed stands loaded =>
    exact single.goto stands rfl rfl rfl (fun _ acts => .inl acts) nofun fun _ => .inr rfl
  | killed stands =>
    exact single.goto stands rfl (List.length_modify ..) rfl nofun nofun fun _ => .inr rfl
  | @kept task client t own readed packet rest session stands decoded loaded extended =>
    refine single.goto stands rfl (List.length_set ..) rfl (fun _ acts => .inl ?_)
      (fun _ held => .inl ?_) fun _ => .inr rfl
    · cases packet with
      | publish => cases acts
      | subscribe | pingReq => exact acts
    · cases packet with
      | publish => cases held
      | subscribe | pingReq => exact held
  | aborted stands | appended stands =>
    refine single.goto stands rfl rfl rfl nofun nofun ?_
    rintro ((⟨⟨⟩⟩ | ⟨⟨⟩⟩) | ⟨⟨⟩⟩)
  | refused => exact single
  | @checked cleanStart => exact single.of_same rfl rfl (by cases cleanStart <;> exact nofun)
  | restored | notRestored | unreadable | readBack | notReadBack | created | notCreated | stored
  | notInserted | gaveUp =>
    exact single.of_same rfl rfl nofun
  | inserted _ dead => exact single.insert (vacated.resolve_left dead) _
  | spawned spawning => exact single.spawn spawning

theorem guardedInvariant (now : Nat) (log : List EventType) :
    (system now log).GuardedInvariant Vacated Single where
  initial valid := by
    rw [valid]
    exact single_new now log
  preserved single vacated stepped := single.preserved vacated stepped

/-- At the head a task takes on the client in the slot. -/
theorem head_actsFor {slot : Slot} {task : Nat} (stands : slot.pc? task = some .head)
    (stored : slot.clients ≠ []) :
    ∃ next, slot.step (.head task) = some next ∧ next.clients = slot.clients ∧
      next.ActsFor task slot.current ∧ ∀ other, other ≠ task → next.pc? other = slot.pc? other := by
  obtain ⟨client, present⟩ := Option.isSome_iff_exists.mp (List.getLast?_isSome.mpr stored)
  simp only [step, stands, present]
  split
  · exact ⟨_, rfl, rfl, ⟨_, pc?_goto_self stands _, rfl⟩,
      fun other different => pc?_goto_ne slot different _⟩
  · exact ⟨_, rfl, rfl, ⟨_, pc?_goto_self stands _, rfl⟩,
      fun other different => pc?_goto_ne slot different _⟩

/-- Two tasks at their heads can both take on the client in the slot. -/
theorem not_oneTask_of_heads {slot : Slot} {left right : Nat} (different : left ≠ right)
    (stored : slot.clients ≠ []) (leftStands : slot.pc? left = some .head)
    (rightStands : slot.pc? right = some .head) :
    ∃ later, System.execute step slot [.head left, .head right] = some later ∧ ¬ later.OneTask := by
  obtain ⟨middle, first, clients, acts, others⟩ := head_actsFor leftStands stored
  have middleStored : middle.clients ≠ [] := by rwa [clients]
  obtain ⟨later, second, laterClients, laterActs, laterOthers⟩ := head_actsFor
    ((others right (Ne.symm different)).trans rightStands) middleStored
  have current : later.current = slot.current := by
    rw [Slot.current, Slot.current, laterClients, clients]
  have middleCurrent : middle.current = slot.current := by
    rw [Slot.current, Slot.current, clients]
  refine ⟨later, by simp [System.execute, first, second], fun one => different (one _ _ ?_ ?_)⟩
  · obtain ⟨pc, stands, loaded⟩ := acts
    exact ⟨pc, (laterOthers left different).trans stands, current ▸ loaded⟩
  · rw [current, ← middleCurrent]
    exact laterActs

/-- What `Clients::insert` leaves where it stores a client. -/
theorem step_insert_of_dead {slot next : Slot} (dead : slot.isStillAlive ≠ some true)
    (stepped : slot.step .insert = some next) :
    ∃ session, next = { slot with clients := slot.clients ++ [session], handler := .spawning } := by
  simp only [step] at stepped
  split at stepped
  · rw [if_neg dead] at stepped
    exact ⟨_, (Option.some.inj stepped).symm⟩
  · cases stepped

/-- Beside a task at its head the task of a new client can become a second one. -/
theorem second_task {slot : Slot} {task : Nat} (stands : slot.pc? task = some .head)
    (session : Session) :
    ∃ actions later, System.execute step
        { slot with clients := slot.clients ++ [session], handler := .spawning } actions =
          some later ∧ ¬ later.OneTask := by
  let spawned : Slot := { slot with
    clients := slot.clients ++ [session], tasks := slot.tasks ++ [.head], handler := .idle }
  have ran : System.execute step
      { slot with clients := slot.clients ++ [session], handler := .spawning } [.spawn] =
        some spawned := rfl
  have known : task < slot.tasks.length := (List.getElem?_eq_some_iff.mp stands).1
  have oldPlace : spawned.pc? task = some .head :=
    (List.getElem?_append_left known).trans stands
  have newPlace : spawned.pc? slot.tasks.length = some .head := List.getElem?_concat_length
  have stored : spawned.clients ≠ [] :=
    List.append_ne_nil_of_right_ne_nil _ (List.cons_ne_nil _ _)
  obtain ⟨later, executed, broken⟩ :=
    not_oneTask_of_heads (Nat.ne_of_lt known) stored oldPlace newPlace
  refine ⟨[.spawn] ++ [.head task, .head slot.tasks.length], later, ?_, broken⟩
  rw [System.execute_append ran, executed]

/-- A client stored beside a task that uses one gets a second task, or the other task goes on
through the client that was freed. -/
theorem Single.of_unvacated {slot next : Slot} (single : slot.Single)
    (stepped : slot.step .insert = some next) (unvacated : ¬ slot.Vacated .insert) :
    (∃ actions later, System.execute step next actions = some later ∧ ¬ later.OneTask) ∨
      ∃ task, next.Freed task := by
  obtain ⟨dead, task, pc, stands, needs⟩ :
      slot.isStillAlive ≠ some true ∧ ∃ task, slot.Needs task := by
    simpa only [Vacated, not_or, not_forall, not_not] using unvacated
  obtain ⟨session, rfl⟩ := step_insert_of_dead dead stepped
  rcases needs with rfl | holds
  · exact .inl (second_task stands session)
  · obtain ⟨client, held⟩ := Option.isSome_iff_exists.mp holds
    have known := single.stored ⟨pc, stands, TaskPc.client?_of_held? held⟩
    refine .inr ⟨task, pc, stands, client, held, ?_⟩
    simpa [current] using known

/-- In every interleaving, as long as clients are stored in the slot only while no task uses
one, one task at most acts for the client in the slot, and no task goes on through a freed
client. The first client that is stored otherwise can get a second task, or an old task goes
on through the freed one. -/
theorem oneTask_of_vacated {now : Nat} {log : List EventType} {trail : List (Slot × SlotAction)}
    {slot : Slot} (run : (system now log).Run trail slot)
    (vacated : System.Run.AllSteps Vacated trail) :
    System.Run.AllStates OneTask trail slot ∧
      System.Run.AllStates (fun slot => ∀ task, ¬ slot.Freed task) trail slot ∧
      ∀ next, slot.step .insert = some next → ¬ slot.Vacated .insert →
        (∃ actions later, System.execute step next actions = some later ∧ ¬ later.OneTask) ∨
          ∃ task, next.Freed task := by
  have all := (guardedInvariant now log).allStates run vacated
  exact ⟨all.mono Single.oneTask, all.mono Single.held,
    fun _ stepped unvacated => all.2.of_unvacated stepped unvacated⟩

theorem not_needs_of_all {slot : Slot}
    (unused : (slot.tasks.all fun pc => !decide pc.needs) = true) (task : Nat) :
    ¬ slot.Needs task := by
  rintro ⟨pc, stands, needs⟩
  have out := List.all_eq_true.mp unused pc (List.mem_of_getElem? stands)
  rw [decide_eq_true needs] at out
  cases out

/-- A client connects with a keep-alive of one minute. -/
def connects : List SlotAction := [.check true, .create 60 0, .store, .insert, .spawn]

/-- A client is found dead, its task ends, and then it comes back. -/
theorem oneTask_of_vacated_return :
    let actions := connects ++
      [.head 0, .tick 91, .read 0 .timedOut, .head 0, .append 0] ++ connects ++ [.head 1]
    ∃ slot, (system 0 []).Run (System.trailOf step (new 0 []) actions) slot ∧
      slot.tasks = [.ended, .reading 1 91] ∧
      System.Run.AllStates OneTask (System.trailOf step (new 0 []) actions) slot := by
  intro actions
  have ran : (System.execute step (new 0 []) actions).map Slot.tasks =
      some [.ended, .reading 1 91] := by decide
  obtain ⟨slot, executed, tasks⟩ := Option.map_eq_some_iff.mp ran
  have run := System.run_of_execute executed
  refine ⟨slot, run, tasks, (oneTask_of_vacated run ?_).1⟩
  have unused : ((System.trailOf step (new 0 []) actions).all fun entry =>
      match entry.2 with
      | .insert => entry.1.tasks.all fun pc => !decide pc.needs
      | _ => true) = true := by decide
  rintro ⟨before, action⟩ member
  have out := List.all_eq_true.mp unused _ member
  cases action with
  | insert => exact .inr (not_needs_of_all out)
  | _ => trivial

/-- The read of a task has timed out and the task is back at its head, which it has not passed
yet when the client comes back. -/
theorem two_tasks_after_return :
    ∃ slot, (system 0 []).Reachable slot ∧
      slot.tasks = [.reading 1 91, .reading 1 91] ∧ ¬ slot.OneTask := by
  have ran : (System.execute step (new 0 []) (connects ++ [.head 0, .tick 91, .read 0 .timedOut] ++
      connects ++ [.head 0, .head 1])).map (fun slot => (slot.tasks, slot.current)) =
        some ([.reading 1 91, .reading 1 91], 1) := by decide
  obtain ⟨slot, executed, facts⟩ := Option.map_eq_some_iff.mp ran
  simp only [Prod.mk.injEq] at facts
  obtain ⟨tasks, current⟩ := facts
  have acts (task : Nat) (listed : slot.pc? task = some (.reading 1 91)) :
      slot.ActsFor task slot.current := ⟨_, listed, by rw [current]; rfl⟩
  refine ⟨slot, System.reachable_of_execute executed, tasks, fun one => ?_⟩
  exact absurd (one 0 1 (acts 0 (by rw [pc?, tasks]; rfl)) (acts 1 (by rw [pc?, tasks]; rfl)))
    (by decide)

end Sipusu.MessageBroker.Slot
