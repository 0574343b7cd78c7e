import Sipusu.MessageBroker.Client.Restore

/-!
# Phases and deadlines of a session

A session is alive up to its deadline, `keep_alive` renews it only before its deadline, and
it is expired once its expiry interval has passed as well. The deadline is computed in three
places, before the shortest interval is applied in one of them and in 16 bits in all.
-/

namespace Sipusu.MessageBroker

open Sipusu.Foundation

namespace Session

section Phases

/-- The session after a call of `keep_alive`, which leaves it as it was when it fails. -/
def renewed (session : Session) (t : Nat) : Session :=
  (session.keepAliveAt t).toOption.getD session

/-- The session after calls of `keep_alive`, one after another. -/
def renewedAll (session : Session) (times : List Nat) : Session := times.foldl renewed session

/-- The phases agree on a time: the session can be renewed exactly while it is alive, it is
not alive once it is expired, and once it is not alive it stays so. -/
structure Coherent (session : Session) (t : Nat) : Prop where
  renewable : (∃ next, session.keepAliveAt t = .ok next) ↔ session.isAlive t = true
  expired : session.isExpired t = true → session.isAlive t = false
  final : session.isAlive t = false → ∀ times, (∀ time ∈ times, t ≤ time) →
    ∀ later, t ≤ later → (session.renewedAll times).isAlive later = false

variable {session : Session} {t : Nat}

theorem isAlive_iff : session.isAlive t = true ↔ t ≤ session.ttl := by
  rw [isAlive, decide_eq_true_iff, ge_iff_le]

theorem isAlive_eq_false_iff : session.isAlive t = false ↔ session.ttl < t := by
  rw [isAlive, decide_eq_false_iff_not, ge_iff_le, Nat.not_le]

theorem keepAliveAt_of_passed (passed : session.ttl ≤ t) :
    session.keepAliveAt t = .err alreadyExpired := by
  rw [keepAliveAt, if_pos passed]

/-- Before the deadline only an overflow can stop `keep_alive`. -/
theorem keepAliveAt_of_ahead (bounded : session.keepAlive.toNat ≤ 43690) (ahead : t < session.ttl) :
    session.keepAliveAt t = .ok { session with
      ttl := t + (session.keepAlive.toNat + session.keepAlive.toNat / 2) } := by
  rw [keepAliveAt, if_neg (Nat.not_le.mpr ahead), allowance_eq bounded]
  rfl

/-- Calls behind the deadline change nothing. -/
theorem renewedAll_of_passed {times : List Nat} (passed : ∀ time ∈ times, session.ttl ≤ time) :
    session.renewedAll times = session := by
  induction times with
  | nil => rfl
  | cons time rest inductionHypothesis =>
    have first : session.renewed time = session := by
      rw [renewed, keepAliveAt_of_passed (passed time List.mem_cons_self)]
      rfl
    rw [renewedAll, List.foldl_cons, first]
    exact inductionHypothesis fun other member => passed other (List.mem_cons_of_mem time member)

/-- What is dead stays dead. -/
theorem isAlive_renewedAll (dead : session.isAlive t = false) {times : List Nat}
    (after : ∀ time ∈ times, t ≤ time) {later : Nat} (bound : t ≤ later) :
    (session.renewedAll times).isAlive later = false := by
  have passed := isAlive_eq_false_iff.mp dead
  rw [renewedAll_of_passed fun time member =>
    Nat.le_trans (Nat.le_of_lt passed) (after time member)]
  exact isAlive_eq_false_iff.mpr (Nat.lt_of_lt_of_le passed bound)

/-- The phases agree on every time but the deadline itself, when the session is alive and
cannot be renewed. -/
theorem phases_coherent_iff (bounded : session.keepAlive.toNat + session.keepAlive.toNat / 2 < 65536)
    (t : Nat) : session.Coherent t ↔ t ≠ session.ttl := by
  have interval : session.keepAlive.toNat ≤ 43690 := by omega
  constructor
  · rintro ⟨renewable, _, _⟩ rfl
    obtain ⟨next, renews⟩ := renewable.mpr (isAlive_iff.mpr (Nat.le_refl _))
    rw [keepAliveAt_of_passed (Nat.le_refl _)] at renews
    cases renews
  · intro different
    refine ⟨?_, ?_, fun dead times after later bound => isAlive_renewedAll dead after bound⟩
    · rw [isAlive_iff]
      constructor
      · rintro ⟨next, renews⟩
        by_contra late
        rw [keepAliveAt_of_passed (Nat.le_of_not_le late)] at renews
        cases renews
      · intro early
        exact ⟨_, keepAliveAt_of_ahead interval (Nat.lt_of_le_of_ne early different)⟩
    · intro isExpired
      rw [Session.isExpired, decide_eq_true_iff, expirationTime] at isExpired
      exact isAlive_eq_false_iff.mpr (by omega)

/-- A session one second before its deadline. -/
theorem phases_coherent_iff_ahead : (60 : UInt16).toNat + (60 : UInt16).toNat / 2 < 65536 ∧
    Coherent ⟨100, 0, 60⟩ 99 :=
  ⟨by decide, (phases_coherent_iff (by decide) 99).mpr (by decide)⟩

/-- At its deadline a session without an expiry interval is alive and expired, and cannot be
renewed. -/
theorem incoherent_at_deadline :
    let session : Session := { ttl := 100, exprInterval := 0, keepAlive := 60 }
    session.keepAliveAt 100 = .err alreadyExpired ∧ session.isAlive 100 = true ∧
      session.isExpired 100 = true ∧ ¬ session.Coherent 100 := by
  refine ⟨rfl, rfl, rfl, ?_⟩
  rintro ⟨_, expired, _⟩
  cases expired rfl

end Phases

/-- The sessions that calls of `keep_alive` pass through, if all of them succeed. -/
def renewals (session : Session) : List Nat → Outcome String (List Session)
  | [] => .ok [session]
  | t :: rest => do
      let next ← session.keepAliveAt t
      let later ← renewals next rest
      return session :: later

end Session

namespace Client

/-- The interval that a session keeps when another one is asked for. -/
def interval (keepAlive : UInt16) : UInt16 := max keepAlive minKeepAlive

/-- The deadline of a session that was heard at `t`, with the interval it keeps. -/
def deadline (keepAlive : UInt16) (t : Nat) : Nat :=
  t + ((interval keepAlive).toNat + (interval keepAlive).toNat / 2)

/-- The clock readings for which no deadline overflows 64 bits. -/
def clockLimit : Nat := 2 ^ 63

/-- For a requested interval, every deadline is the one of the interval that the session
keeps, and no renewal moves it back. -/
structure ExactDeadlines (keepAlive : UInt16) : Prop where
  created : ∀ conid clid exprInterval protocolLevel limit now, now < clockLimit →
    ∃ client, Client.new conid clid keepAlive exprInterval protocolLevel limit now = .ok client ∧
      client.session.keepAlive = interval keepAlive ∧ client.session.ttl = deadline keepAlive now
  restored : ∀ conid clid store iteration now restored after, now < clockLimit →
    SessionStore.restore (some store) iteration now = .ok (restored, after) →
    restored.mdata.keepAliveInterval = interval keepAlive →
    ∃ client, Client.restore conid clid (some store) iteration now = .ok (client, after) ∧
      client.session.keepAlive = interval keepAlive ∧ client.session.ttl = deadline keepAlive now
  renewed : ∀ (session : Session) t, t < clockLimit → session.keepAlive = interval keepAlive →
    session.keepAliveAt t ≠ .panic ∧
      ∀ next, session.keepAliveAt t = .ok next → next.ttl = deadline keepAlive t
  monotone : ∀ (session : Session) since times sessions, session.keepAlive = interval keepAlive →
    session.ttl = deadline keepAlive since → (since :: times).Pairwise (· ≤ ·) →
    (∀ t ∈ times, t < clockLimit) → session.renewals times = .ok sessions →
    (sessions.map Session.ttl).Pairwise (· ≤ ·)

section Deadlines

variable {keepAlive : UInt16}

theorem toNat_interval (keepAlive : UInt16) :
    (interval keepAlive).toNat = max keepAlive.toNat 60 := by
  have least : minKeepAlive.toNat = 60 := rfl
  rw [interval, UInt16.max_def]
  split
  · have above := UInt16.le_iff_toNat_le.mp ‹_›
    omega
  · have below := mt UInt16.le_iff_toNat_le.mpr ‹_›
    omega

theorem interval_le (bounded : keepAlive.toNat ≤ 43690) : (interval keepAlive).toNat ≤ 43690 :=
  max_minKeepAlive_le bounded

theorem deadline_le {earlier later : Nat} (ordered : earlier ≤ later) :
    deadline keepAlive earlier ≤ deadline keepAlive later :=
  Nat.add_le_add_right ordered _

/-- A renewal sets the deadline of the interval that the session keeps, or is too late. -/
theorem keepAliveAt_cases {session : Session} (bounded : keepAlive.toNat ≤ 43690)
    (keeps : session.keepAlive = interval keepAlive) (t : Nat) :
    session.keepAliveAt t = .err Session.alreadyExpired ∨
      session.keepAliveAt t = .ok { session with ttl := deadline keepAlive t } := by
  rcases Nat.lt_or_ge t session.ttl with ahead | passed
  · have stored : session.keepAlive.toNat ≤ 43690 := keeps ▸ interval_le bounded
    rw [Session.keepAliveAt_of_ahead stored ahead, keeps]
    exact .inr rfl
  · exact .inl (Session.keepAliveAt_of_passed passed)

/-- Renewals at ascending times ascend, and start at the first deadline. -/
theorem renewals_ascend (bounded : keepAlive.toNat ≤ 43690) {times : List Nat} :
    ∀ {session : Session} {since : Nat} {sessions : List Session},
      session.keepAlive = interval keepAlive → session.ttl = deadline keepAlive since →
      (since :: times).Pairwise (· ≤ ·) → session.renewals times = .ok sessions →
      (∀ later ∈ sessions, session.ttl ≤ later.ttl) ∧
        (sessions.map Session.ttl).Pairwise (· ≤ ·) := by
  induction times with
  | nil =>
    intro session since sessions _ _ _ ran
    obtain rfl := Outcome.ok.inj ran
    simp
  | cons t rest inductionHypothesis =>
    intro session since sessions keeps counts ordered ran
    obtain ⟨next, renews, ran⟩ := Outcome.bind_eq_ok.mp ran
    obtain ⟨later, renewsLater, same⟩ := Outcome.bind_eq_ok.mp ran
    obtain rfl := Outcome.ok.inj same
    rcases keepAliveAt_cases bounded keeps t with refused | renewed
    · rw [refused] at renews
      cases renews
    · rw [renewed, Outcome.ok.injEq] at renews
      subst renews
      obtain ⟨first, ordered⟩ := List.pairwise_cons.mp ordered
      have nextKeeps : { session with ttl := deadline keepAlive t }.keepAlive =
          interval keepAlive := keeps
      obtain ⟨above, ascending⟩ := inductionHypothesis nextKeeps rfl ordered renewsLater
      have forward : session.ttl ≤ deadline keepAlive t := by
        rw [counts]
        exact deadline_le (first t List.mem_cons_self)
      have all : ∀ other ∈ later, session.ttl ≤ other.ttl := fun other member =>
        Nat.le_trans forward (above other member)
      refine ⟨List.forall_mem_cons.mpr ⟨Nat.le_refl _, all⟩, ?_⟩
      rw [List.map_cons, List.pairwise_cons]
      exact ⟨List.forall_mem_map.mpr all, ascending⟩

/-- The first deadline is the one of the interval asked for. -/
theorem deadline_eq_iff (keepAlive : UInt16) (now : Nat) :
    now + (keepAlive.toNat + keepAlive.toNat / 2) = deadline keepAlive now ↔
      60 ≤ keepAlive.toNat := by
  rw [deadline, toNat_interval]
  omega

/-- All deadlines are exact for a requested interval that is at least the shortest one and
whose deadline fits into 16 bits, and for no other. -/
theorem exactDeadlines_iff (keepAlive : UInt16) :
    ExactDeadlines keepAlive ↔ 60 ≤ keepAlive.toNat ∧ keepAlive.toNat ≤ 43690 := by
  constructor
  · rintro ⟨created, _, _, _⟩
    obtain ⟨client, made, _, ttl⟩ :=
      created ⟨0⟩ (.new ⟨[], rfl⟩) 0 0 ⟨none, none, none⟩ 0 (Nat.pow_pos (by decide))
    obtain ⟨bounded, rfl⟩ := new_eq_ok made
    exact ⟨(deadline_eq_iff keepAlive 0).mp ttl, bounded⟩
  · rintro ⟨least, bounded⟩
    constructor
    · intro conid clid exprInterval protocolLevel limit now _
      have made := new_eq conid clid keepAlive exprInterval protocolLevel limit now
      rw [if_pos bounded] at made
      exact ⟨_, made, rfl, (deadline_eq_iff keepAlive now).mpr least⟩
    · intro conid clid store iteration now restored after _ files stored
      have fits : restored.mdata.keepAliveInterval.toNat ≤ 43690 := stored ▸ interval_le bounded
      refine ⟨_, restore_of_files files fits, stored, ?_⟩
      rw [stored]
      rfl
    · intro session t _ keeps
      rcases keepAliveAt_cases bounded keeps t with refused | renews
      · rw [refused]
        exact ⟨nofun, nofun⟩
      · rw [renews]
        refine ⟨nofun, ?_⟩
        rintro next ⟨⟩
        rfl
    · intro session since times sessions keeps counts ordered _ ran
      exact (renewals_ascend bounded keeps counts ordered ran).2

/-- For a requested interval of half a minute the session keeps one of a minute, but its
first deadline is 45 seconds away; for the longest one no deadline is computed. -/
theorem deadline_of_short_interval :
    (∃ client, Client.new ⟨1⟩ (.new ⟨[0x61], by decide⟩) 30 0 5 ⟨none, none, none⟩ 100 = .ok client ∧
        client.session.keepAlive = 60 ∧ client.session.ttl = 145 ∧ deadline 30 100 = 190) ∧
      Client.new ⟨1⟩ (.new ⟨[0x61], by decide⟩) 65535 0 5 ⟨none, none, none⟩ 100 = .panic ∧
      ¬ ∀ keepAlive, ExactDeadlines keepAlive := by
  refine ⟨⟨_, rfl, rfl, rfl, rfl⟩, rfl, fun exact => ?_⟩
  obtain ⟨client, made, _, ttl⟩ := (exact 65535).created ⟨0⟩ (.new ⟨[], rfl⟩) 0 0
    ⟨none, none, none⟩ 0 (Nat.pow_pos (by decide))
  cases made

end Deadlines

end Client
end Sipusu.MessageBroker
