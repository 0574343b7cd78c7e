import Sipusu.MessageBroker.MsgState

/-!
# Runs of the message states

Any sequence of `create` and `resolve` calls, in builds with overflow checks and without.
The table stays consistent and an entry has advanced once for every resolve that succeeded on
it, but the client named in such a call is never the one whose entry advances.
-/

namespace Sipusu.MessageBroker.MessageCoordinator

open Sipusu.Foundation
open ClientID (eq_false_iff_key)

/-- All sequences of calls. -/
def coordinator (overflowChecks : Bool) : System MessageCoordinator Call :=
  .ofStep new fun s call => some (s.act overflowChecks call).2

/-- The call is a resolve. -/
def Call.isResolve : Call → Bool
  | .create .. => false
  | .resolve .. => true

/-- A resolve succeeds and changes the entry of a client for a packet identifier. -/
def advances (overflowChecks : Bool) (clid : ClientID) (packetId : UInt16)
    (s : MessageCoordinator) (call : Call) : Bool :=
  call.isResolve && decide ((s.act overflowChecks call).1 = .ok () ∧
    (s.act overflowChecks call).2.entryOf clid packetId ≠ s.entryOf clid packetId)

/-- The step of an entry, or zero where there is none. -/
def stepOf (s : MessageCoordinator) (clid : ClientID) (packetId : UInt16) : Nat :=
  (s.entryOf clid packetId).elim 0 fun state => state.ack.step

section Steps

variable {overflowChecks : Bool} {s : MessageCoordinator}

theorem Changes.entry {after : MessageCoordinator} {clid : ClientID} {packetId : UInt16}
    {state : SaveState} (changes : Changes s after clid packetId state) :
    after.entryOf clid packetId = some state :=
  (changes clid packetId).trans (if_pos ⟨rfl, rfl⟩)

theorem entryOf_congr {client other : ClientID} (same : client.key = other.key)
    (packetId : UInt16) : s.entryOf client packetId = s.entryOf other packetId := by
  rw [entryOf, entryOf, same]

/-- One call moves the step of an entry by one if it advances the entry, and not otherwise. -/
theorem stepOf_act (consistent : Consistent s.data) (overflowChecks : Bool) (call : Call)
    (clid : ClientID) (packetId : UInt16) :
    (s.act overflowChecks call).2.stepOf clid packetId =
      s.stepOf clid packetId + (advances overflowChecks clid packetId s call).toNat := by
  have effect := act_effect consistent overflowChecks call
  rw [advances]
  generalize s.act overflowChecks call = result at effect ⊢
  obtain ⟨outcome, after⟩ := result
  cases effect with
  | aborts | «exists» | missing | refuses => simp
  | @creates creator createdId _ _ _ absent changes =>
    simp only [Call.isResolve, Bool.false_and, Bool.toNat_false, Nat.add_zero, stepOf,
      changes clid packetId]
    split
    · rename_i mine
      rw [mine.2, entryOf_congr mine.1, absent]
      rfl
    · rfl
  | @advances _ _ ack now other state _ found granted changes =>
    simp only [Call.isResolve, Bool.true_and, stepOf, changes clid packetId, true_and]
    split
    · rename_i mine
      have before := (consistent.foreign found).2
      have next := (judge_eq_ok_iff.mp granted).1
      rw [mine.2, entryOf_congr mine.1, before]
      have moved : some { state with ack } ≠ some state := by
        intro same
        rw [Option.some.injEq] at same
        have stays : ack = state.ack := congrArg SaveState.ack same
        rw [stays] at next
        omega
      rw [decide_eq_true moved]
      exact next.symm
    · simp

theorem consistent_invariant (overflowChecks : Bool) :
    (coordinator overflowChecks).Invariant fun s => Consistent s.data where
  initial valid := by
    rw [valid]
    exact ⟨.nil, nofun⟩
  preserved consistent stepped := by
    obtain rfl := Option.some.inj stepped
    exact consistent.act _ _

/-- An entry stands as many steps from the first as resolves have advanced it. -/
theorem countP_advances {trail : List (MessageCoordinator × Call)}
    (run : (coordinator overflowChecks).Run trail s) (clid : ClientID) (packetId : UInt16) :
    trail.countP (fun entry => advances overflowChecks clid packetId entry.1 entry.2) =
      s.stepOf clid packetId := by
  induction run with
  | initial valid =>
    rw [valid]
    rfl
  | @step trail state call next prior transition inductionHypothesis =>
    have consistent := (consistent_invariant overflowChecks).of_run prior
    obtain rfl := Option.some.inj transition
    rw [List.countP_append, inductionHypothesis, stepOf_act consistent, List.countP_singleton]
    cases advances overflowChecks clid packetId state call <;> rfl

end Steps

/-- What holds of a table after a run, and of every call that could be made on it. A create
that does not compute its deadline returns nothing; only builds with overflow checks have
such calls. -/
structure Sound (overflowChecks : Bool) (trail : List (MessageCoordinator × Call))
    (s : MessageCoordinator) : Prop where
  clids : s.data.Pairwise fun left right => PartialEq.eq left.clid right.clid = false
  packetIds : ∀ map ∈ s.data, (map.val.map SaveState.packetId).Nodup
  steps : ∀ clid packetId state, s.entryOf clid packetId = some state →
    trail.countP (fun entry => advances overflowChecks clid packetId entry.1 entry.2) =
      state.ack.step
  single : ∀ clid packetId ack now, (s.resolve clid packetId ack now).1 = .ok () →
    ∃ other state, s.entryOf other packetId = some state ∧ ack.step = state.ack.step + 1 ∧
      Changes s (s.resolve clid packetId ack now).2 other packetId { state with ack }
  known : ∀ clid packetId exprIntrvalSec now,
    (s.create overflowChecks clid packetId exprIntrvalSec now).1 ≠ .panic →
    ((s.create overflowChecks clid packetId exprIntrvalSec now).1 = .err .alreadyExists ↔
      (s.entryOf clid packetId).isSome = true)
  unchecked : overflowChecks = false → ∀ call, (s.act overflowChecks call).1 ≠ .panic
  refused : ∀ call error, (s.act overflowChecks call).1 = .err error →
    (s.act overflowChecks call).2 = s

section Table

variable {overflowChecks : Bool} {s : MessageCoordinator}

theorem Consistent.pairwise {data : List Map} (consistent : Consistent data) :
    data.Pairwise fun left right => PartialEq.eq left.clid right.clid = false := by
  have distinct := List.pairwise_map.mp consistent.clids
  exact distinct.imp fun different => eq_false_iff_key.mpr different

/-- A resolve that succeeds has advanced the entry of another client. -/
theorem Consistent.resolve_eq_ok (consistent : Consistent s.data) {clid : ClientID}
    {packetId : UInt16} {ack : MsgState} {now : UInt64}
    (resolved : (s.resolve clid packetId ack now).1 = .ok ()) :
    ∃ other state, other.key ≠ clid.key ∧ s.entryOf other packetId = some state ∧
      ack.step = state.ack.step + 1 ∧
      Changes s (s.resolve clid packetId ack now).2 other packetId { state with ack } := by
  have effect := act_effect consistent false (.resolve clid packetId ack now)
  rw [MessageCoordinator.act] at effect
  generalize s.resolve clid packetId ack now = result at effect resolved ⊢
  obtain ⟨outcome, after⟩ := result
  cases effect with
  | missing | refuses => cases resolved
  | advances found granted changes =>
    obtain ⟨different, listed⟩ := consistent.foreign found
    exact ⟨_, _, different, listed, (judge_eq_ok_iff.mp granted).1.symm, changes⟩

theorem Consistent.create_known (consistent : Consistent s.data) {clid : ClientID}
    {packetId : UInt16} {exprIntrvalSec now : UInt64}
    (returns : (s.create overflowChecks clid packetId exprIntrvalSec now).1 ≠ .panic) :
    (s.create overflowChecks clid packetId exprIntrvalSec now).1 = .err .alreadyExists ↔
      (s.entryOf clid packetId).isSome = true := by
  have effect := act_effect consistent overflowChecks (.create clid packetId exprIntrvalSec now)
  rw [MessageCoordinator.act] at effect
  generalize s.create overflowChecks clid packetId exprIntrvalSec now = result
    at effect returns ⊢
  obtain ⟨outcome, after⟩ := result
  cases effect with
  | aborts => exact absurd rfl returns
  | «exists» present => exact iff_of_true rfl present
  | creates absent changes =>
    refine iff_of_false (by simp) ?_
    rw [absent]
    exact Bool.false_ne_true

/-- A call that aborts or is refused changes nothing, and none aborts without checks. -/
theorem Consistent.act_unchanged (consistent : Consistent s.data) (call : Call) :
    ((s.act overflowChecks call).1 = .panic → overflowChecks = true) ∧
      ((s.act overflowChecks call).1 ≠ .ok () → (s.act overflowChecks call).2 = s) := by
  have effect := act_effect consistent overflowChecks call
  generalize s.act overflowChecks call = result at effect ⊢
  obtain ⟨outcome, after⟩ := result
  cases effect with
  | aborts checked => exact ⟨fun _ => checked, fun _ => rfl⟩
  | «exists» | missing | refuses => exact ⟨nofun, fun _ => rfl⟩
  | creates | advances => exact ⟨nofun, fun failed => absurd rfl failed⟩

/-- The table is sound after every sequence of calls. -/
theorem table_sound {trail : List (MessageCoordinator × Call)}
    (run : (coordinator overflowChecks).Run trail s) : Sound overflowChecks trail s := by
  have consistent := (consistent_invariant overflowChecks).of_run run
  constructor
  · exact consistent.pairwise
  · exact consistent.packetIds
  · intro clid packetId state listed
    rw [countP_advances run, stepOf, listed]
    rfl
  · intro clid packetId ack now resolved
    obtain ⟨other, state, _, listed, next, changes⟩ := consistent.resolve_eq_ok resolved
    exact ⟨other, state, listed, next, changes⟩
  · intro clid packetId exprIntrvalSec now returns
    exact consistent.create_known returns
  · intro unchecked call aborted
    have checked := (consistent.act_unchanged call).1 aborted
    rw [unchecked] at checked
    cases checked
  · intro call error failed
    refine (consistent.act_unchanged call).2 ?_
    rw [failed]
    exact nofun

/-- One message is created and resolved, by another client. -/
theorem table_sound_resolved :
    let a : ClientID := .new ⟨[0x61], by decide⟩
    let b : ClientID := .new ⟨[0x62], by decide⟩
    let created : MessageCoordinator := ⟨[⟨a, [⟨7, .pubRec, 10⟩]⟩]⟩
    let trail := [(new, Call.create a 7 10 0), (created, Call.resolve b 7 .pubRel 5)]
    ∃ s, (coordinator true).Run trail s ∧ s.entryOf a 7 = some ⟨7, .pubRel, 10⟩ ∧
      Sound true trail s := by
  intro a b created trail
  have first : new.act true (.create a 7 10 0) = (.ok (), created) := by decide
  have stepped : some (new.act true (.create a 7 10 0)).2 = some created := by rw [first]
  have start : (coordinator true).Run [(new, .create a 7 10 0)] created :=
    .step (.initial rfl) stepped
  have run : (coordinator true).Run trail _ := .step start rfl
  exact ⟨_, run, by decide, table_sound run⟩

end Table

/-- What the entry of a client for a packet identifier, or its absence, makes of an
acknowledgement. -/
def verdict (entry : Option SaveState) (ack : MsgState) (now : UInt64) :
    Outcome MsgAckErrors Unit :=
  entry.elim (.err .notFound) fun state => judge state ack now

/-- A resolve looks at the entries of its client only: the entry for the packet identifier
decides, it alone takes the acknowledgement, and it takes it when it is not expired and one
step behind. -/
structure PerClient (s : MessageCoordinator) (clid : ClientID) (packetId : UInt16)
    (ack : MsgState) (now : UInt64) : Prop where
  granted : (s.resolve clid packetId ack now).1 = .ok () ↔
    ∃ state, s.entryOf clid packetId = some state ∧ ¬ state.expiredAt < now ∧
      ack.step = state.ack.step + 1
  missing : (s.resolve clid packetId ack now).1 = .err .notFound ↔
    s.entryOf clid packetId = none
  decided : (s.resolve clid packetId ack now).1 = verdict (s.entryOf clid packetId) ack now
  recorded : (s.resolve clid packetId ack now).1 = .ok () →
    (s.resolve clid packetId ack now).2.entryOf clid packetId =
      (s.entryOf clid packetId).map fun state => { state with ack }
  own : ∀ id, id ≠ packetId →
    (s.resolve clid packetId ack now).2.entryOf clid id = s.entryOf clid id
  others : ∀ other : ClientID, PartialEq.eq other clid = false → ∀ id,
    (s.resolve clid packetId ack now).2.entryOf other id = s.entryOf other id

/-- Neither the client nor another one has an entry for the packet identifier, or both have
one, and the client's and the first of the others are refused for the same reason. -/
def RefusedAlike (s : MessageCoordinator) (clid : ClientID) (packetId : UInt16)
    (ack : MsgState) (now : UInt64) : Prop :=
  match s.entryOf clid packetId, s.foreignOf clid packetId with
  | none, none => True
  | some own, some (_, state) =>
      (own.ack.step + 1 ≠ ack.step ∧ state.ack.step + 1 ≠ ack.step) ∨
        (own.ack.step + 1 = ack.step ∧ state.ack.step + 1 = ack.step ∧
          own.expiredAt < now ∧ state.expiredAt < now)
  | _, _ => False

section Resolution

variable {overflowChecks : Bool} {s : MessageCoordinator} {clid : ClientID} {packetId : UInt16}
  {ack : MsgState} {now : UInt64}

theorem verdict_eq_ok_iff {entry : Option SaveState} :
    verdict entry ack now = .ok () ↔
      ∃ state, entry = some state ∧ ¬ state.expiredAt < now ∧ ack.step = state.ack.step + 1 := by
  cases entry with
  | none => simp [verdict]
  | some state =>
    have judged : verdict (some state) ack now = judge state ack now := rfl
    rw [judged, judge_eq_ok_iff]
    constructor
    · rintro ⟨next, unexpired⟩
      exact ⟨state, rfl, unexpired, next.symm⟩
    · rintro ⟨_, ⟨⟩, unexpired, next⟩
      exact ⟨next.symm, unexpired⟩

theorem judge_ne_notFound (state : SaveState) (ack : MsgState) (now : UInt64) :
    judge state ack now ≠ .err .notFound := by
  rw [judge]
  split
  · split
    · simp
    · simp
  · simp

theorem verdict_eq_notFound_iff {entry : Option SaveState} :
    verdict entry ack now = .err .notFound ↔ entry = none := by
  cases entry with
  | none => simp [verdict]
  | some state => exact iff_of_false (judge_ne_notFound state ack now) nofun

/-- Two entries are refused alike when both are not one step behind, or both are expired. -/
theorem judge_alike_iff (own state : SaveState) :
    (judge state ack now = judge own ack now ∧ judge state ack now ≠ .ok ()) ↔
      (own.ack.step + 1 ≠ ack.step ∧ state.ack.step + 1 ≠ ack.step) ∨
        (own.ack.step + 1 = ack.step ∧ state.ack.step + 1 = ack.step ∧
          own.expiredAt < now ∧ state.expiredAt < now) := by
  rw [judge, judge]
  by_cases ownNext : own.ack.step + 1 = ack.step <;> by_cases next : state.ack.step + 1 = ack.step <;>
    by_cases ownExpired : own.expiredAt < now <;> by_cases expired : state.expiredAt < now <;>
    simp [ownNext, next, ownExpired, expired]

theorem refusedAlike_iff :
    RefusedAlike s clid packetId ack now ↔
      verdict ((s.foreignOf clid packetId).map Prod.snd) ack now =
          verdict (s.entryOf clid packetId) ack now ∧
        verdict ((s.foreignOf clid packetId).map Prod.snd) ack now ≠ .ok () := by
  rw [RefusedAlike]
  cases s.entryOf clid packetId with
  | none =>
    cases s.foreignOf clid packetId with
    | none => exact iff_of_true trivial ⟨rfl, nofun⟩
    | some found =>
      refine iff_of_false id fun alike => judge_ne_notFound found.2 ack now ?_
      exact alike.1
  | some own =>
    cases s.foreignOf clid packetId with
    | none =>
      refine iff_of_false id fun alike => judge_ne_notFound own ack now ?_
      exact alike.1.symm
    | some found => exact (judge_alike_iff own found.2).symm

/-- A resolve returns what the first foreign entry makes of the acknowledgement. If that is a
success the foreign entry is changed, otherwise nothing is. -/
theorem Consistent.resolve_cases (consistent : Consistent s.data) (clid : ClientID)
    (packetId : UInt16) (ack : MsgState) (now : UInt64) :
    (s.resolve clid packetId ack now).1 =
        verdict ((s.foreignOf clid packetId).map Prod.snd) ack now ∧
      ((s.resolve clid packetId ack now).1 = .ok () ∨ (s.resolve clid packetId ack now).2 = s) := by
  have effect := act_effect consistent false (.resolve clid packetId ack now)
  rw [MessageCoordinator.act] at effect
  generalize s.resolve clid packetId ack now = result at effect ⊢
  obtain ⟨outcome, after⟩ := result
  cases effect with
  | missing nobody =>
    rw [nobody]
    exact ⟨rfl, .inr rfl⟩
  | refuses found refused =>
    rw [found]
    exact ⟨refused.symm, .inr rfl⟩
  | advances found granted =>
    rw [found]
    exact ⟨granted.symm, .inl rfl⟩

/-- In every reachable table a resolve is one of its client alone exactly when the skipped
client and the first of the others are refused alike. -/
theorem resolved_per_client_iff (reachable : (coordinator overflowChecks).Reachable s)
    (clid : ClientID) (packetId : UInt16) (ack : MsgState) (now : UInt64) :
    PerClient s clid packetId ack now ↔ RefusedAlike s clid packetId ack now := by
  have consistent := (consistent_invariant overflowChecks).of_reachable reachable
  obtain ⟨returned, effect⟩ := consistent.resolve_cases clid packetId ack now
  rw [refusedAlike_iff, ← returned]
  constructor
  · intro perClient
    refine ⟨perClient.decided, fun resolved => ?_⟩
    obtain ⟨other, state, different, listed, next, changes⟩ := consistent.resolve_eq_ok resolved
    have kept := perClient.others other (eq_false_iff_key.mpr different) packetId
    rw [changes.entry, listed, Option.some.injEq] at kept
    have stays : ack = state.ack := congrArg SaveState.ack kept
    rw [stays] at next
    omega
  · rintro ⟨decided, refused⟩
    have unchanged : (s.resolve clid packetId ack now).2 = s := effect.resolve_left refused
    refine ⟨?_, ?_, decided, fun resolved => absurd resolved refused, ?_, ?_⟩
    · rw [decided]
      exact verdict_eq_ok_iff
    · rw [decided]
      exact verdict_eq_notFound_iff
    · intro id _
      rw [unchanged]
    · intro other _ id
      rw [unchanged]

/-- Two clients have an entry for the same packet identifier, and an acknowledgement that is a
step too early for both is refused as it should be. -/
theorem resolved_per_client_iff_pair :
    let a : ClientID := .new ⟨[0x61], by decide⟩
    let b : ClientID := .new ⟨[0x62], by decide⟩
    let s : MessageCoordinator := ⟨[⟨a, [⟨7, .pubRec, 10⟩]⟩, ⟨b, [⟨7, .pubRec, 20⟩]⟩]⟩
    (coordinator true).Reachable s ∧
      (s.resolve a 7 .publish 5).1 = .err .invalidResolveState ∧ PerClient s a 7 .publish 5 := by
  intro a b s
  have first : new.act true (.create a 7 10 0) = (.ok (), ⟨[⟨a, [⟨7, .pubRec, 10⟩]⟩]⟩) := by decide
  have second : (⟨[⟨a, [⟨7, .pubRec, 10⟩]⟩]⟩ : MessageCoordinator).act true (.create b 7 20 0) =
      (.ok (), s) := by decide
  have reachable : (coordinator true).Reachable s := by
    refine ⟨_, .step (.step (.initial rfl) (?_ : some (new.act true (.create a 7 10 0)).2 =
      some ⟨[⟨a, [⟨7, .pubRec, 10⟩]⟩]⟩)) (?_ : some ((⟨[⟨a, [⟨7, .pubRec, 10⟩]⟩]⟩ :
        MessageCoordinator).act true (.create b 7 20 0)).2 = some s)⟩
    · rw [first]
    · rw [second]
  have refused : (s.resolve a 7 .publish 5).1 = .err .invalidResolveState := by decide
  refine ⟨reachable, refused, (resolved_per_client_iff reachable a 7 .publish 5).mpr ?_⟩
  have own : s.entryOf a 7 = some ⟨7, .pubRec, 10⟩ := by decide
  have foreign : s.foreignOf a 7 = some (b, ⟨7, .pubRec, 20⟩) := by decide
  rw [RefusedAlike, own, foreign]
  exact .inl (by decide)

/-- The only entry is not found under its own client, and advances for another one. -/
theorem resolve_skips_own_client :
    let a : ClientID := .new ⟨[0x61], by decide⟩
    let b : ClientID := .new ⟨[0x62], by decide⟩
    let s : MessageCoordinator := ⟨[⟨a, [⟨7, .pubRec, 10⟩]⟩]⟩
    (coordinator true).Reachable s ∧ (s.resolve a 7 .pubRel 5).1 = .err .notFound ∧
      s.resolve b 7 .pubRel 5 = (.ok (), ⟨[⟨a, [⟨7, .pubRel, 10⟩]⟩]⟩) ∧
      ¬ PerClient s a 7 .pubRel 5 ∧ ¬ PerClient s b 7 .pubRel 5 := by
  intro a b s
  have created : new.act true (.create a 7 10 0) = (.ok (), s) := by decide
  have stepped : some (new.act true (.create a 7 10 0)).2 = some s := by rw [created]
  have run : (coordinator true).Run [(new, .create a 7 10 0)] s := .step (.initial rfl) stepped
  have skipped : (s.resolve a 7 .pubRel 5).1 = .err .notFound := by decide
  have advanced : s.resolve b 7 .pubRel 5 = (.ok (), ⟨[⟨a, [⟨7, .pubRel, 10⟩]⟩]⟩) := by decide
  refine ⟨⟨_, run⟩, skipped, advanced, fun perClient => ?_, fun perClient => ?_⟩
  · have listed : s.entryOf a 7 = some ⟨7, .pubRec, 10⟩ := by decide
    rw [perClient.missing.mp skipped] at listed
    cases listed
  · have unlisted : s.entryOf b 7 = none := by decide
    rw [← perClient.missing, advanced] at unlisted
    cases unlisted

end Resolution

end Sipusu.MessageBroker.MessageCoordinator
