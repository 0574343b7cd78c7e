import Sipusu.Foundation.BinarySearch
import Sipusu.Foundation.Runs
import Sipusu.MessageBroker.Client.Client

/-!
# The client registry

`src/message_broker/client/clients.rs`. Insertion scans for its place and the
lookups search by halving, both by the derived order of identifiers. The lock
around the list makes every call one step of the registry.
-/

namespace Sipusu.MessageBroker

open Sipusu.Foundation

namespace Clients

/-- The error `Clients::insert` returns. -/
def duplicateClientId : String := "duplicate client id"

/-- The `'insert` loop of `Clients::insert` from the index `i` on, where the
clients left to visit are listed. It answers whether to swap, and the index. -/
def scan (newClid : ClientID) (now : Nat) : List Client → Nat → Except String (Bool × Nat)
  | [], i => .ok (false, i)
  | client :: rest, i =>
      match newClid.cmp client.clid with
      | .eq => if client.isAlive now then .error duplicateClientId else .ok (true, i)
      | .gt => scan newClid now rest (i + 1)
      | .lt => .ok (false, i)

/-- `Clients::insert` at the clock reading `now`. -/
def insert (clients : List Client) (newCl : Client) (now : Nat) :
    Except String Unit × List Client :=
  match scan newCl.clid now clients 0 with
  | .error message => (.error message, clients)
  | .ok (true, i) => (.ok (), clients.set i newCl)
  | .ok (false, found) => (.ok (), clients.insertIdx found newCl)

/-- The search both lookups make. -/
def searchIndex (clients : List Client) (clid : ClientID) : Except Nat Nat :=
  BinarySearch.binarySearchBy (fun client => client.clid.cmp clid) clients

/-- `Clients::search_mut_client`: the callback may update the client it is given. -/
def searchMutClient {R : Type} (clients : List Client) (clid : ClientID)
    (f : Client → R × Client) : Option (R × List Client) := do
  let idx ← (searchIndex clients clid).toOption
  let client ← clients[idx]?
  return ((f client).1, clients.set idx (f client).2)

/-- `Clients::get_client`: the client in the slot it returns. -/
def getClient (clients : List Client) (clid : ClientID) : Option Client := do
  let idx ← (searchIndex clients clid).toOption
  clients[idx]?

/-- The list ascends strictly by identifier. -/
def Ascending (clients : List Client) : Prop :=
  clients.Pairwise fun earlier later => earlier.clid.cmp later.clid = .lt

/-- Where the scan stops, in terms of the clients before and after that place. -/
theorem scan_spec (newClid : ClientID) (now : Nat) (clients : List Client) (i : Nat) :
    match scan newClid now clients i with
    | .error message => message = duplicateClientId ∧
        ∃ client ∈ clients, client.clid = newClid ∧ client.isAlive now = true
    | .ok (true, found) => ∃ before old after, clients = before ++ old :: after ∧
        found = i + before.length ∧ (∀ client ∈ before, newClid.cmp client.clid = .gt) ∧
        old.clid = newClid ∧ old.isAlive now = false
    | .ok (false, found) => ∃ before after, clients = before ++ after ∧
        found = i + before.length ∧ (∀ client ∈ before, newClid.cmp client.clid = .gt) ∧
        ∀ client ∈ after.head?, newClid.cmp client.clid = .lt := by
  induction clients generalizing i with
  | nil => exact ⟨[], [], rfl, rfl, by simp, by simp⟩
  | cons client rest inductionHypothesis =>
    cases order : newClid.cmp client.clid with
    | lt =>
      simp only [scan, order]
      exact ⟨[], client :: rest, rfl, rfl, by simp, by simpa using order⟩
    | eq =>
      have same : client.clid = newClid := (ClientID.ext (ClientID.cmp_eq_iff.mp order)).symm
      cases alive : client.isAlive now with
      | true =>
        simp only [scan, order, alive, if_true]
        exact ⟨trivial, client, List.mem_cons_self, same, alive⟩
      | false =>
        simp only [scan, order, alive, Bool.false_eq_true, if_false]
        exact ⟨[], client, rest, rfl, rfl, by simp, same, alive⟩
    | gt =>
      simp only [scan, order]
      have further := inductionHypothesis (i + 1)
      have below : ∀ {before : List Client}, (∀ other ∈ before, newClid.cmp other.clid = .gt) →
          ∀ other ∈ client :: before, newClid.cmp other.clid = .gt := by
        rintro before earlier other member
        rcases List.mem_cons.mp member with rfl | member
        · exact order
        · exact earlier other member
      rcases stop : scan newClid now rest (i + 1) with message | ⟨swap, found⟩
      · rw [stop] at further
        obtain ⟨text, other, member, facts⟩ := further
        exact ⟨text, other, List.mem_cons_of_mem client member, facts⟩
      · rw [stop] at further
        cases swap with
        | true =>
          obtain ⟨before, old, after, rfl, place, earlier, facts⟩ := further
          exact ⟨client :: before, old, after, rfl, by simp [place]; omega, below earlier, facts⟩
        | false =>
          obtain ⟨before, after, rfl, place, earlier, next⟩ := further
          exact ⟨client :: before, after, rfl, by simp [place]; omega, below earlier, next⟩

/-- Different places in the order mean different strings. -/
theorem id_ne_of_lt {left right : ClientID} (order : left.cmp right = .lt) :
    left.id ≠ right.id := by
  intro same
  rw [ClientID.cmp_eq_iff.mpr same] at order
  cases order

/-- The three ways an insertion into an ascending list can go. -/
inductive Inserted (clients : List Client) (newCl : Client) (now : Nat) :
    Except String Unit × List Client → Prop where
  | refused {client} (member : client ∈ clients) (same : client.clid = newCl.clid)
      (alive : client.isAlive now = true) :
      Inserted clients newCl now (.error duplicateClientId, clients)
  | replaced {before old after} (split : clients = before ++ old :: after)
      (same : old.clid = newCl.clid) (dead : old.isAlive now = false)
      (below : ∀ client ∈ before, client.clid.cmp newCl.clid = .lt)
      (above : ∀ client ∈ after, newCl.clid.cmp client.clid = .lt) :
      Inserted clients newCl now (.ok (), before ++ newCl :: after)
  | added {before after} (split : clients = before ++ after)
      (below : ∀ client ∈ before, client.clid.cmp newCl.clid = .lt)
      (above : ∀ client ∈ after, newCl.clid.cmp client.clid = .lt) :
      Inserted clients newCl now (.ok (), before ++ newCl :: after)

theorem insertIdx_length_append {α : Type} (before after : List α) (value : α) :
    (before ++ after).insertIdx before.length value = before ++ value :: after := by
  induction before with
  | nil => rfl
  | cons first before inductionHypothesis => simp [inductionHypothesis]

/-- In an ascending list what follows the head is beyond it, so the scan need not
look further. -/
theorem Ascending.beyond_head {clients : List Client} (ascending : Ascending clients)
    {clid : ClientID} (head : ∀ client ∈ clients.head?, clid.cmp client.clid = .lt) :
    ∀ client ∈ clients, clid.cmp client.clid = .lt := by
  rintro client member
  cases clients with
  | nil => cases member
  | cons first rest =>
    have firstBeyond : clid.cmp first.clid = .lt := head first rfl
    rcases List.mem_cons.mp member with rfl | later
    · exact firstBeyond
    · exact Std.TransCmp.lt_trans firstBeyond (List.rel_of_pairwise_cons ascending later)

theorem insert_inserted {clients : List Client} (ascending : Ascending clients)
    (newCl : Client) (now : Nat) :
    Inserted clients newCl now (insert clients newCl now) := by
  have stop := scan_spec newCl.clid now clients 0
  unfold insert
  rcases verdict : scan newCl.clid now clients 0 with message | ⟨swap, found⟩ <;>
    rw [verdict] at stop
  · obtain ⟨rfl, client, member, same, alive⟩ := stop
    exact .refused member same alive
  · cases swap with
    | true =>
      obtain ⟨before, old, after, rfl, rfl, earlier, same, dead⟩ := stop
      have above : ∀ client ∈ after, newCl.clid.cmp client.clid = .lt := by
        intro client member
        rw [← same]
        exact List.rel_of_pairwise_cons (List.pairwise_append.mp ascending).2.1 member
      have below : ∀ client ∈ before, client.clid.cmp newCl.clid = .lt := fun client member =>
        Std.OrientedCmp.lt_of_gt (earlier client member)
      simpa using Inserted.replaced rfl same dead below above
    | false =>
      obtain ⟨before, after, rfl, rfl, earlier, next⟩ := stop
      have above := Ascending.beyond_head (List.pairwise_append.mp ascending).2.1 next
      have below : ∀ client ∈ before, client.clid.cmp newCl.clid = .lt := fun client member =>
        Std.OrientedCmp.lt_of_gt (earlier client member)
      simpa [insertIdx_length_append] using Inserted.added rfl below above

/-- A client between the smaller and the larger ones keeps the order. -/
theorem Ascending.place {before after : List Client} {newCl : Client}
    (ascending : Ascending (before ++ after))
    (below : ∀ client ∈ before, client.clid.cmp newCl.clid = .lt)
    (above : ∀ client ∈ after, newCl.clid.cmp client.clid = .lt) :
    Ascending (before ++ newCl :: after) := by
  obtain ⟨earlier, later, across⟩ := List.pairwise_append.mp ascending
  refine List.pairwise_append.mpr ⟨earlier, List.pairwise_cons.mpr ⟨above, later⟩, ?_⟩
  rintro client member other tail
  rcases List.mem_cons.mp tail with rfl | after
  · exact below client member
  · exact across client member other after

theorem Ascending.sublist {clients fewer : List Client} (ascending : Ascending clients)
    (kept : fewer.Sublist clients) : Ascending fewer := List.Pairwise.sublist kept ascending

section Outcomes

variable {clients : List Client} {newCl : Client} {now : Nat}
  {result : Except String Unit × List Client}

/-- Every outcome of an insertion leaves the list ascending. -/
theorem Inserted.ascending (inserted : Inserted clients newCl now result)
    (ascending : Ascending clients) : Ascending result.2 := by
  cases inserted with
  | refused => exact ascending
  | replaced split same dead below above =>
    rw [split] at ascending
    exact (ascending.sublist ((List.sublist_cons_self _ _).append_left _)).place below above
  | added split below above =>
    rw [split] at ascending
    exact ascending.place below above

/-- An insertion is refused exactly when the identifier belongs to a living client. -/
theorem Inserted.refused_iff (inserted : Inserted clients newCl now result) :
    result.1 = .error duplicateClientId ↔
      ∃ client ∈ clients, client.clid.id = newCl.clid.id ∧ client.isAlive now = true := by
  cases inserted with
  | @refused client member same alive =>
    simpa using ⟨client, member, congrArg ClientID.id same, alive⟩
  | @replaced before old after split same dead below above =>
    simp only [reduceCtorEq, false_iff]
    rintro ⟨client, member, sameId, alive⟩
    rw [split] at member
    rcases List.mem_append.mp member with earlier | tail
    · exact id_ne_of_lt (below client earlier) sameId
    · rcases List.mem_cons.mp tail with rfl | later
      · rw [dead] at alive
        cases alive
      · exact id_ne_of_lt (above client later) sameId.symm
  | @added before after split below above =>
    simp only [reduceCtorEq, false_iff]
    rintro ⟨client, member, sameId, _⟩
    rw [split] at member
    rcases List.mem_append.mp member with earlier | later
    · exact id_ne_of_lt (below client earlier) sameId
    · exact id_ne_of_lt (above client later) sameId.symm

/-- An insertion is refused or accepted. -/
theorem Inserted.answered (inserted : Inserted clients newCl now result) :
    result.1 = .error duplicateClientId ∨ result.1 = .ok () := by
  cases inserted with
  | refused => exact .inl rfl
  | replaced => exact .inr rfl
  | added => exact .inr rfl

/-- A refused insertion changes nothing. -/
theorem Inserted.unchanged (inserted : Inserted clients newCl now result)
    (refusal : result.1 = .error duplicateClientId) : result.2 = clients := by
  cases inserted with
  | refused => rfl
  | replaced => cases refusal
  | added => cases refusal

/-- An accepted insertion binds its identifier to the new client and leaves all
other clients. -/
theorem Inserted.members (inserted : Inserted clients newCl now result)
    (accepted : result.1 = .ok ()) (client : Client) :
    client ∈ result.2 ↔
      client = newCl ∨ (client ∈ clients ∧ client.clid.id ≠ newCl.clid.id) := by
  cases inserted with
  | refused => cases accepted
  | @replaced before old after split same dead below above =>
    have apart : client ∈ before ∨ client ∈ after → client.clid.id ≠ newCl.clid.id := by
      rintro (earlier | later)
      · exact id_ne_of_lt (below client earlier)
      · exact (id_ne_of_lt (above client later)).symm
    have oldId : client = old → client.clid.id = newCl.clid.id := by
      rintro rfl
      rw [same]
    simp only [split, List.mem_append, List.mem_cons]
    tauto
  | @added before after split below above =>
    have apart : client ∈ before ∨ client ∈ after → client.clid.id ≠ newCl.clid.id := by
      rintro (earlier | later)
      · exact id_ne_of_lt (below client earlier)
      · exact (id_ne_of_lt (above client later)).symm
    simp only [split, List.mem_append, List.mem_cons]
    tauto

/-- Whatever the outcome, every identifier stays in the list. -/
theorem Inserted.keeps (inserted : Inserted clients newCl now result) {client : Client}
    (member : client ∈ clients) : ∃ kept ∈ result.2, kept.clid = client.clid := by
  cases inserted with
  | refused => exact ⟨client, member, rfl⟩
  | @replaced before old after split same =>
    subst split
    rcases List.mem_append.mp member with earlier | later
    · exact ⟨client, List.mem_append_left _ earlier, rfl⟩
    · rcases List.mem_cons.mp later with rfl | later
      · exact ⟨newCl, List.mem_append_right _ List.mem_cons_self, same.symm⟩
      · exact ⟨client, List.mem_append_right _ (List.mem_cons_of_mem _ later), rfl⟩
  | added split =>
    subst split
    rcases List.mem_append.mp member with earlier | later
    · exact ⟨client, List.mem_append_left _ earlier, rfl⟩
    · exact ⟨client, List.mem_append_right _ (List.mem_cons_of_mem _ later), rfl⟩

end Outcomes

section Lookups

variable {clients : List Client}

/-- The probe of the lookups splits an ascending list. -/
theorem Ascending.splits (ascending : Ascending clients) (clid : ClientID) :
    BinarySearch.Splits (fun client : Client => client.clid.cmp clid) clients := by
  refine ascending.imp fun {earlier later} order notBeyond => ?_
  exact Std.TransCmp.lt_of_lt_of_isLE order (Ordering.isLE_iff_ne_gt.mpr notBeyond)

/-- An identifier occurs once in an ascending list. -/
theorem Ascending.nodup (ascending : Ascending clients) :
    (clients.map fun client => client.clid.id).Nodup := by
  rw [List.Nodup, List.pairwise_map]
  exact ascending.imp fun order => id_ne_of_lt order

theorem Ascending.eq_of_id (ascending : Ascending clients) {left right : Client}
    (leftIn : left ∈ clients) (rightIn : right ∈ clients)
    (same : left.clid.id = right.clid.id) : left = right :=
  List.inj_on_of_nodup_map ascending.nodup leftIn rightIn same

/-- The search of both lookups. -/
theorem searchIndex_spec (ascending : Ascending clients) (clid : ClientID) :
    (∃ idx client, searchIndex clients clid = .ok idx ∧ clients[idx]? = some client ∧
      client.clid.id = clid.id) ∨
    (∃ missing, searchIndex clients clid = .error missing ∧
      ∀ client ∈ clients, client.clid.id ≠ clid.id) := by
  have search := BinarySearch.binarySearchBy_spec (ascending.splits clid)
  rcases answer : searchIndex clients clid with missing | idx <;>
    rw [searchIndex] at answer <;> rw [answer] at search
  · exact .inr ⟨missing, rfl, fun client member same =>
      search client member (ClientID.cmp_eq_iff.mpr same)⟩
  · obtain ⟨bound, equal⟩ := search
    exact .inl ⟨idx, _, rfl, List.getElem?_eq_getElem bound, ClientID.cmp_eq_iff.mp equal⟩

/-- `get_client` finds a client exactly when its identifier is in the list. -/
theorem getClient_eq_some (ascending : Ascending clients) {clid : ClientID} {client : Client} :
    getClient clients clid = some client ↔ client ∈ clients ∧ client.clid.id = clid.id := by
  unfold getClient
  rcases searchIndex_spec ascending clid with
    ⟨idx, found, answer, slot, foundId⟩ | ⟨missing, answer, absent⟩
  · simp only [answer, Except.toOption, Option.bind_eq_bind, Option.bind_some, slot,
      Option.some.injEq]
    constructor
    · rintro rfl
      exact ⟨List.mem_of_getElem? slot, foundId⟩
    · rintro ⟨member, same⟩
      exact ascending.eq_of_id (List.mem_of_getElem? slot) member (foundId.trans same.symm)
  · simp only [answer, Except.toOption, Option.bind_eq_bind, Option.bind_none, reduceCtorEq,
      false_iff]
    rintro ⟨member, same⟩
    exact absent client member same

/-- `search_mut_client` runs its callback on the client of that identifier, in its
slot, and only if there is one. -/
theorem searchMutClient_spec {R : Type} (ascending : Ascending clients) (clid : ClientID)
    (f : Client → R × Client) :
    (∀ client ∈ clients, client.clid.id = clid.id → ∃ idx, clients[idx]? = some client ∧
      searchMutClient clients clid f = some ((f client).1, clients.set idx (f client).2)) ∧
    ((∀ client ∈ clients, client.clid.id ≠ clid.id) → searchMutClient clients clid f = none) := by
  unfold searchMutClient
  rcases searchIndex_spec ascending clid with
    ⟨idx, found, answer, slot, foundId⟩ | ⟨missing, answer, absent⟩
  · constructor
    · intro client member same
      have isFound : found = client :=
        ascending.eq_of_id (List.mem_of_getElem? slot) member (foundId.trans same.symm)
      subst isFound
      exact ⟨idx, slot, by simp [answer, Except.toOption, slot]⟩
    · intro absent
      exact absurd foundId (absent found (List.mem_of_getElem? slot))
  · exact ⟨fun client member same => absurd same (absent client member), fun _ => by
      simp [answer, Except.toOption]⟩

end Lookups

/-- What happens to a registry: an insertion, or a change of a stored client's
session by its own task. -/
inductive Event where
  | insert (newCl : Client) (now : Nat)
  | session (idx : Nat) (session : Session)

/-- The list after an event. -/
def apply (clients : List Client) : Event → List Client
  | .insert newCl now => (insert clients newCl now).2
  | .session idx session => clients.modify idx fun client => { client with session }

/-- A registry starts empty, as `Clients::new` makes it. -/
def registry : System (List Client) Event where
  Initial clients := clients = []
  Step clients event next := next = apply clients event

theorem map_clid_modify (clients : List Client) (idx : Nat) (session : Session) :
    (clients.modify idx fun client => { client with session }).map Client.clid =
      clients.map Client.clid := by
  apply List.ext_getElem?
  intro i
  rw [List.getElem?_map, List.getElem?_modify, List.getElem?_map]
  by_cases touched : idx = i
  · simp [touched, Function.comp_def]
  · simp [touched]

/-- Changing a session moves no client. -/
theorem Ascending.modify_session {clients : List Client} (ascending : Ascending clients)
    (idx : Nat) (session : Session) :
    Ascending (clients.modify idx fun client => { client with session }) := by
  unfold Ascending at *
  rw [← List.pairwise_map (f := Client.clid) (R := fun left right => left.cmp right = .lt)] at *
  rwa [map_clid_modify]

theorem ascending_invariant : registry.Invariant Ascending where
  initial valid := by
    rw [valid]
    exact .nil
  preserved {clients event next} ascending transition := by
    rw [transition]
    cases event with
    | insert newCl now => exact (insert_inserted ascending newCl now).ascending ascending
    | session idx session => exact ascending.modify_session idx session

/-- A registry is a sorted map. After every history of insertions and session
changes the list ascends strictly, an insertion is refused exactly for a living
holder of the identifier and then changes nothing, an accepted one binds the
identifier to the new client and moves no other, and both lookups find exactly
what is there. -/
theorem registry_is_sorted_map {clients : List Client} (reachable : registry.Reachable clients) :
    Ascending clients ∧ (clients.map fun client => client.clid.id).Nodup ∧
    (∀ newCl now,
      ((insert clients newCl now).1 = .error duplicateClientId ∨
        (insert clients newCl now).1 = .ok ()) ∧
      ((insert clients newCl now).1 = .error duplicateClientId ↔
        ∃ client ∈ clients, client.clid.id = newCl.clid.id ∧ client.isAlive now = true) ∧
      ((insert clients newCl now).1 = .error duplicateClientId →
        (insert clients newCl now).2 = clients) ∧
      ((insert clients newCl now).1 = .ok () → ∀ client,
        client ∈ (insert clients newCl now).2 ↔
          client = newCl ∨ (client ∈ clients ∧ client.clid.id ≠ newCl.clid.id))) ∧
    (∀ clid client,
      getClient clients clid = some client ↔ client ∈ clients ∧ client.clid.id = clid.id) ∧
    ∀ clid (R : Type) (f : Client → R × Client),
      (∀ client ∈ clients, client.clid.id = clid.id → ∃ idx, clients[idx]? = some client ∧
        searchMutClient clients clid f = some ((f client).1, clients.set idx (f client).2)) ∧
      ((∀ client ∈ clients, client.clid.id ≠ clid.id) →
        searchMutClient clients clid f = none) := by
  have ascending := ascending_invariant.of_reachable reachable
  refine ⟨ascending, ascending.nodup, fun newCl now => ?_, fun _ _ => getClient_eq_some ascending,
    fun clid R f => searchMutClient_spec ascending clid f⟩
  have inserted := insert_inserted ascending newCl now
  exact ⟨inserted.answered, inserted.refused_iff, inserted.unchanged, inserted.members⟩

/-- Two clients arrive in the opposite order of their identifiers, and the first of
them comes back while it is still alive. -/
theorem registry_is_sorted_map_pair :
    let client (octet : UInt8) (valid : Utf8.valid [octet] = true) : Client :=
      { conid := ⟨0⟩, clid := .new ⟨[octet], valid⟩, protocolLevel := 5,
        session := ⟨90, 0, 60⟩, limit := ⟨none, none, none⟩ }
    let a := client 0x61 (by decide)
    let b := client 0x62 (by decide)
    let clients := apply (apply [] (.insert b 0)) (.insert a 1)
    clients = [a, b] ∧ registry.Reachable clients ∧ getClient clients b.clid = some b ∧
      (insert clients b 2).1 = .error duplicateClientId := by
  intro client a b clients
  have listed : clients = [a, b] := rfl
  have reachable : registry.Reachable clients :=
    ⟨_, .step (.step (.initial rfl) rfl) rfl⟩
  obtain ⟨_, _, inserted, found, _⟩ := registry_is_sorted_map reachable
  have member : b ∈ clients := by simp [listed]
  exact ⟨listed, reachable, (found b.clid b).mpr ⟨member, rfl⟩,
    (inserted b 2).2.1.mpr ⟨b, member, rfl, by decide⟩⟩

end Clients
end Sipusu.MessageBroker
