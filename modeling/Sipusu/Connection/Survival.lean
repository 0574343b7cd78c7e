import Sipusu.Connection.Registration
import Sipusu.Connection.Response
import Sipusu.Foundation.Runs

/-!
# What takes the broker down

Every connection of every history is accepted, or rejected with nothing changed, or its
handling aborts and ends the accept loop. The condition under which none aborts is exact.
-/

namespace Sipusu.Connection.Broker

open Sipusu.Foundation Sipusu.Protocol.V5 Sipusu.MessageBroker

/-- What happens at the broker: a connection comes in, and the tasks of clients subscribe to
topics, write log lines and change the deadlines of their sessions. When the disk fails a
subscription file, something is left of it. -/
inductive Operation where
  | connect (read : FirstRead) (answers : Answers) (now : Nat)
  | subscribe (clid : ClientID) (list : List Subscribe) (iteration : IterationOrder)
      (torn : Option Bytes)
  | log (clid : ClientID) (wall : WALL)
  | session (idx : Nat) (session : Session)

variable (currentDir : Bytes)

/-- `subscribe_topics`. The router is updated first, and keeps the update when the file cannot
be read. -/
def subscribeTopics (s : Broker) (clid : ClientID) (list : List Subscribe)
    (iteration : IterationOrder) (torn : Option Bytes) : Option Broker := do
  let (_, router) ← s.router.subscribe clid list
  match s.storeOf currentDir clid with
  | none => some { s with router }
  | some store =>
      match ClientStore.subscribe store.subscribed list iteration with
      | .ok subscribed =>
          some ({ s with router }.setStore currentDir clid
            (some { store with subscribed := torn.getD subscribed }))
      | _ => some { s with router }

/-- One operation. Connections come in while the accept loop runs. -/
def step (s : Broker) : Operation → Option Broker
  | .connect read answers now =>
      if s.accepting then some (s.connect currentDir read answers now).2 else none
  | .subscribe clid list iteration torn => s.subscribeTopics currentDir clid list iteration torn
  | .log clid wall =>
      (s.storeOf currentDir clid).map fun store =>
        s.setStore currentDir clid (some (store.logSession [wall]))
  | .session idx session =>
      some { s with clients := s.clients.modify idx fun client => { client with session } }

/-- `Proxy::new`, on the files it finds. -/
def new (stores : List Bytes → Option SessionStore) : Broker :=
  { accessTotal := 1, accepting := true, clients := [], router := Ds.Trie.new, stores }

/-- All histories of a broker that starts on the files that earlier ones left. -/
def broker : System Broker Operation where
  Initial s := ∃ stores, s = new stores ∧
    ∀ directory store, stores directory = some store → Stored store
  Step s operation next := s.step currentDir operation = some next

/-- The connection is accepted, or it is rejected and the registry, the router and the files
of the registered clients are as before. Either way the accept loop goes on. -/
def Survives (s : Broker) : Operation → Prop
  | .connect read answers now =>
      match s.connect currentDir read answers now with
      | (.accepted, next) => next.accepting = true
      | (.rejected _, next) => next.accepting = true ∧ next.clients = s.clients ∧
          next.router = s.router ∧ ∀ client ∈ s.clients,
            next.storeOf currentDir client.clid = s.storeOf currentDir client.clid
      | (.aborted, _) => False
  | _ => True

/-- The condition on connections: octets arrive that do not break off inside a field, and if
they are a request, its session can be started. -/
def Admissible (s : Broker) : Operation → Prop
  | .connect (.received octets _) answers now =>
      ¬ Connect.CutShort octets ∧ ∀ packet rest, ConnectPacket.decode octets = .ok (packet, rest) →
        s.Startable currentDir (collect packet .default).1 answers now
  | .connect _ _ _ => False
  | _ => True

section Connections

variable {currentDir : Bytes} {s : Broker} {read : FirstRead} {answers : Answers} {now : Nat}

/-- What handling a connection comes to. -/
inductive Connected (s : Broker) : Handled × Broker → Prop where
  | accepted {next} (sound : next.Sound) : Connected s (.accepted, next)
  | rejected (error : ConnError) :
      Connected s (.rejected error, { s with accessTotal := s.accessTotal + 1 })

theorem Sound.counted (sound : s.Sound) (accessTotal : UInt32) : Sound { s with accessTotal } :=
  ⟨sound.accepting, sound.ascending, sound.stored⟩

theorem startable_counted (s : Broker) (accessTotal : UInt32) (srvVar : ServerVariable) :
    Startable currentDir { s with accessTotal } srvVar answers now ↔
      Startable currentDir s srvVar answers now :=
  ⟨fun ⟨vacant, readable, fresh, answered⟩ => ⟨vacant, readable, fresh, answered⟩,
    fun ⟨vacant, readable, fresh, answered⟩ => ⟨vacant, readable, fresh, answered⟩⟩

theorem readRequest_received {octets : Bytes} (fits : octets.length ≤ 256) :
    readRequest (.received octets fits) =
      ((ConnectPacket.decode octets).mapErr fun e => ConnError.new .invalidData (some e)) >>=
        fun decoded => pure decoded.1 := rfl

/-- A request is handled by starting its session. -/
theorem establishConnection_of_request {octets rest : Bytes} {fits : octets.length ≤ 256}
    {packet : ConnectPacket} (decoded : ConnectPacket.decode octets = .ok (packet, rest))
    (conid : ConnectionID) (sound : s.Sound) :
    Action.Returns (Startable currentDir s (collect packet .default).1 answers now)
      (fun _ next => next.Sound)
      (establishConnection currentDir conid (.received octets fits) answers now) s := by
  have request : readRequest (.received octets fits) = .ok packet := by
    rw [readRequest_received, decoded]
    rfl
  obtain ⟨used, split, bounded⟩ := ConnectPacket.decode_userBounded decoded
  have small : used.length ≤ 256 := by
    rw [split, List.length_append] at fits
    omega
  have starts := @startSession_returns currentDir s conid (collect packet .default).1 answers now
    (collect packet .default).2 ConnError sound (encode_collect_eq_ok (bounded.mono small))
  refine starts.of_eq ?_
  rw [establishConnection, request, Action.ofOutcome_ok_bind]

/-- Octets that are no request change nothing. -/
theorem establishConnection_of_none (currentDir : Bytes) (s : Broker) (conid : ConnectionID)
    (answers : Answers) (now : Nat) {read : FirstRead}
    (none : ∀ packet, readRequest read ≠ .ok packet) :
    (∀ value, (establishConnection currentDir conid read answers now s).1 ≠ .ok value) ∧
      (establishConnection currentDir conid read answers now s).2 = s := by
  rw [establishConnection]
  cases request : readRequest read with
  | ok packet => exact absurd request (none packet)
  | err error => exact ⟨Outcome.err_ne_ok _, rfl⟩
  | panic => exact ⟨Outcome.panic_ne_ok, rfl⟩

theorem connect_of_panic
    (abort : (establishConnection currentDir ⟨s.accessTotal⟩ read answers now
      { s with accessTotal := s.accessTotal + 1 }).1 = .panic) :
    ∃ next, s.connect currentDir read answers now = (.aborted, next) ∧ next.accepting = false := by
  rw [connect]
  split
  · rename_i went
    rw [went] at abort
    cases abort
  · rename_i went
    rw [went] at abort
    cases abort
  · exact ⟨_, rfl, rfl⟩

/-- A connection that is admissible is handled. -/
theorem connect_of_admissible (sound : s.Sound)
    (admissible : s.Admissible currentDir (.connect read answers now)) :
    Connected s (s.connect currentDir read answers now) := by
  cases read with
  | timedOut => exact admissible.elim
  | failed error => exact admissible.elim
  | received octets fits =>
    obtain ⟨whole, startable⟩ := admissible
    have counted := sound.counted (s.accessTotal + 1)
    cases decoded : ConnectPacket.decode octets with
    | ok result =>
      obtain ⟨packet, rest⟩ := result
      obtain ⟨_, next, went, soundNext⟩ :=
        (establishConnection_of_request decoded ⟨s.accessTotal⟩ counted).returns
          ((startable_counted s _ _).mpr (startable packet rest decoded))
      rw [connect, went]
      exact .accepted soundNext
    | err error =>
      have went : establishConnection currentDir ⟨s.accessTotal⟩ (.received octets fits) answers now
          { s with accessTotal := s.accessTotal + 1 } =
            (.err (.new .invalidData (some error)), { s with accessTotal := s.accessTotal + 1 }) := by
        rw [establishConnection, readRequest_received, decoded]
        rfl
      rw [connect, went]
      exact .rejected _
    | panic => exact absurd ((Connect.decode_eq_panic_iff octets).mp decoded) whole

/-- A connection that is not admissible ends the accept loop. -/
theorem connect_of_not_admissible (sound : s.Sound)
    (refused : ¬ s.Admissible currentDir (.connect read answers now)) :
    ∃ next, s.connect currentDir read answers now = (.aborted, next) ∧ next.accepting = false := by
  apply connect_of_panic
  cases read with
  | timedOut => rfl
  | failed error => rfl
  | received octets fits =>
    cases decoded : ConnectPacket.decode octets with
    | ok result =>
      obtain ⟨packet, rest⟩ := result
      refine (establishConnection_of_request decoded ⟨s.accessTotal⟩
        (sound.counted (s.accessTotal + 1))).aborts fun startable => refused ⟨?_, ?_⟩
      · rw [← Connect.decode_eq_panic_iff, decoded]
        exact nofun
      · intro other left again
        rw [decoded, Outcome.ok.injEq, Prod.mk.injEq] at again
        rw [← again.1]
        exact (startable_counted s _ _).mp startable
    | err error =>
      refine absurd ⟨?_, fun packet rest request => ?_⟩ refused
      · rw [← Connect.decode_eq_panic_iff, decoded]
        exact nofun
      · rw [decoded] at request
        cases request
    | panic =>
      rw [establishConnection, readRequest_received, decoded]
      rfl

/-- A connection survives exactly when it is admissible. -/
theorem survives_connect_iff (sound : s.Sound) :
    s.Survives currentDir (.connect read answers now) ↔
      s.Admissible currentDir (.connect read answers now) := by
  constructor
  · intro survives
    by_contra refused
    obtain ⟨next, aborted, _⟩ := connect_of_not_admissible sound refused
    rw [Survives, aborted] at survives
    exact survives
  · intro admissible
    have handled := connect_of_admissible sound admissible
    rw [Survives]
    rcases went : s.connect currentDir read answers now with ⟨result, next⟩
    rw [went] at handled
    cases handled with
    | accepted soundNext => exact soundNext.accepting
    | rejected error => exact ⟨sound.accepting, rfl, rfl, fun _ _ => rfl⟩

end Connections

section Histories

variable {currentDir : Bytes} {s next : Broker}

theorem step_connect {read : FirstRead} {answers : Answers} {now : Nat}
    (stepped : s.step currentDir (.connect read answers now) = some next) :
    s.accepting = true ∧ (s.connect currentDir read answers now).2 = next := by
  rw [step] at stepped
  split at stepped
  · exact ⟨‹_›, Option.some.inj stepped⟩
  · cases stepped

/-- A handled connection leaves a sound broker, or ends the accept loop. -/
theorem Sound.connect (sound : s.Sound) (currentDir : Bytes) (read : FirstRead)
    (answers : Answers) (now : Nat)
    (accepting : (s.connect currentDir read answers now).2.accepting = true) :
    (s.connect currentDir read answers now).2.Sound := by
  by_cases admissible : s.Admissible currentDir (.connect read answers now)
  · have handled := connect_of_admissible sound admissible
    rcases went : s.connect currentDir read answers now with ⟨result, after⟩
    rw [went] at handled
    cases handled with
    | accepted soundAfter => exact soundAfter
    | rejected error => exact sound.counted _
  · obtain ⟨after, aborted, closed⟩ := connect_of_not_admissible sound admissible
    rw [aborted] at accepting
    exact absurd (closed.symm.trans accepting) nofun

/-- The step of a client's task changes neither the order of the registry nor what files are
made of. -/
theorem Sound.task {operation : Operation} (stepped : s.step currentDir operation = some next)
    (isTask : ∀ read answers now, operation ≠ .connect read answers now) :
    next.accepting = s.accepting ∧ (s.Sound → next.Sound) := by
  cases operation with
  | connect read answers now => exact absurd rfl (isTask read answers now)
  | subscribe clid list iteration torn =>
    obtain ⟨⟨_, router⟩, _, saved⟩ := Option.bind_eq_some_iff.mp stepped
    have routed (sound : s.Sound) : Sound { s with router } :=
      ⟨sound.accepting, sound.ascending, sound.stored⟩
    cases present : s.storeOf currentDir clid with
    | none =>
      rw [present] at saved
      rw [← Option.some.inj saved]
      exact ⟨rfl, routed⟩
    | some store =>
      simp only [present] at saved
      split at saved
      · rw [← Option.some.inj saved]
        refine ⟨rfl, fun sound => (routed sound).setStore clid fun files isFiles => ?_⟩
        have stored : Stored store := sound.stored present
        rw [← Option.some.inj isFiles]
        exact ⟨stored.log, stored.settings⟩
      · rw [← Option.some.inj saved]
        exact ⟨rfl, routed⟩
  | log clid wall =>
    obtain ⟨store, present, logged⟩ := Option.map_eq_some_iff.mp stepped
    rw [← logged]
    refine ⟨rfl, fun sound => sound.setStore clid fun files isFiles => ?_⟩
    have stored : Stored store := sound.stored present
    rw [← Option.some.inj isFiles]
    exact stored.logSession _
  | session idx session =>
    rw [← Option.some.inj stepped]
    exact ⟨rfl, fun sound => ⟨sound.accepting, sound.ascending.modify_session idx session,
      sound.stored⟩⟩

/-- While the accept loop runs, the registry is in order and the files are as written. -/
theorem kept_invariant (currentDir : Bytes) :
    (broker currentDir).Invariant fun s => s.accepting = true → s.Sound where
  initial valid := by
    obtain ⟨stores, rfl, stored⟩ := valid
    exact fun accepting => ⟨accepting, .nil, fun found => stored _ _ found⟩
  preserved {s operation next} kept stepped := by
    intro accepting
    change s.step currentDir operation = some next at stepped
    cases operation with
    | connect read answers now =>
      obtain ⟨running, took⟩ := step_connect stepped
      rw [← took] at accepting ⊢
      exact (kept running).connect currentDir read answers now accepting
    | subscribe clid list iteration torn =>
      obtain ⟨same, sound⟩ := Sound.task stepped fun _ _ _ => nofun
      exact sound (kept (same ▸ accepting))
    | log clid wall =>
      obtain ⟨same, sound⟩ := Sound.task stepped fun _ _ _ => nofun
      exact sound (kept (same ▸ accepting))
    | session idx session =>
      obtain ⟨same, sound⟩ := Sound.task stepped fun _ _ _ => nofun
      exact sound (kept (same ▸ accepting))

/-- A connection that comes in survives exactly when it is admissible. -/
theorem survives_step_iff {operation : Operation} (kept : s.accepting = true → s.Sound)
    (stepped : s.step currentDir operation = some next) :
    s.Survives currentDir operation ↔ s.Admissible currentDir operation := by
  cases operation with
  | connect read answers now =>
    obtain ⟨running, _⟩ := step_connect stepped
    exact survives_connect_iff (kept running)
  | subscribe | log | session => exact Iff.rfl

/-- In every history, no connection takes the broker down, and the rejected ones change
nothing, exactly when all connections are admissible. -/
theorem survives_iff_admissible {currentDir : Bytes} {trail : List (Broker × Operation)}
    {s : Broker} (run : (broker currentDir).Run trail s) :
    System.Run.AllSteps (Survives currentDir) trail ↔
      System.Run.AllSteps (Admissible currentDir) trail := by
  induction run with
  | initial => exact iff_of_true (List.forall_mem_nil _) (List.forall_mem_nil _)
  | step prior transition inductionHypothesis =>
    rw [System.Run.allSteps_append, System.Run.allSteps_append, inductionHypothesis]
    exact and_congr_right fun _ =>
      survives_step_iff ((kept_invariant currentDir).of_run prior) transition

/-- Octets that are no request come in, and then a client connects. -/
theorem survives_iff_admissible_plain :
    let currentDir := Text.ascii "/srv"
    let answers : Answers :=
      { logOpened := .ok (), filesOpened := .ok (), created := .made, written := .ok (),
        iteration := .listed }
    let first : Operation := .connect (.received [0x00] (by decide)) answers 5
    let second : Operation := .connect (.received [0x10, 0x0E, 0x00, 0x04, 0x4D, 0x51, 0x54, 0x54,
      0x05, 0x00, 0x00, 0x3C, 0x00, 0x00, 0x01, 0x61] (by decide)) answers 6
    let start := new fun _ => none
    let counted := { start with accessTotal := 2 }
    ∃ next, (broker currentDir).Run [(start, first), (counted, second)] next ∧
      System.Run.AllSteps (Survives currentDir) [(start, first), (counted, second)] := by
  intro currentDir answers first second start counted
  have began : (broker currentDir).Run [] start := .initial ⟨fun _ => none, rfl, nofun⟩
  have rejected : (broker currentDir).Run [(start, first)] counted := .step began rfl
  have run : (broker currentDir).Run [(start, first), (counted, second)] _ := .step rejected rfl
  refine ⟨_, run, (survives_iff_admissible run).mpr (List.forall_mem_cons.mpr
    ⟨⟨?_, ?_⟩, List.forall_mem_singleton.mpr ⟨?_, ?_⟩⟩)⟩
  · rw [← Connect.decode_eq_panic_iff]
    exact nofun
  · intro packet rest decoded
    cases decoded
  · rw [← Connect.decode_eq_panic_iff]
    exact nofun
  · intro packet rest decoded
    cases decoded
    exact ⟨nofun, fun _ _ => nofun, fun _ => ⟨by decide, rfl⟩, rfl⟩

/-- Reads that time out or find the end of the stream. -/
theorem connect_aborts :
    let currentDir := Text.ascii "/srv"
    let answers : Answers :=
      { logOpened := .ok (), filesOpened := .ok (), created := .made, written := .ok (),
        iteration := .listed }
    let start := new fun _ => none
    (broker currentDir).Reachable start ∧
      ¬ start.Survives currentDir (.connect .timedOut answers 5) ∧
      ¬ start.Survives currentDir (.connect (.received [] (by decide)) answers 5) :=
  ⟨⟨[], .initial ⟨fun _ => none, rfl, nofun⟩⟩, id, id⟩

end Histories

end Sipusu.Connection.Broker
