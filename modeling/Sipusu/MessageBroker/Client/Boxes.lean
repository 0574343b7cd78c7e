import Sipusu.MessageBroker.Client.Clients

/-!
# The boxes of the clients

The registry of `src/message_broker/client/clients.rs` on its pointers. Each client lives in a
box and each slot of the registry points to one. An insertion swaps the pointer of a slot and
frees the old box once it has given up the lock, while tasks and writes may still refer to it.
-/

namespace Sipusu.MessageBroker

open Sipusu.Foundation

/-- `struct Clients` with its memory. Boxes and slots are numbered in the order in which they
are made. -/
structure Boxes where
  /-- The boxes that are allocated. -/
  boxes : Nat → Option Client
  fresh : Nat
  /-- The pointer in each `AtomicPtr`. -/
  slots : Nat → Nat
  made : Nat
  list : List Nat
  /-- The boxes that were taken from their slots and wait to be freed. -/
  unlinked : List Nat
  freed : List Nat

/-- What happens to the registry. -/
inductive BoxAction where
  /-- `Clients::insert` up to the end of its lock. -/
  | insert (newCl : Client) (now : Nat)
  /-- `drop(Box::from_raw(odl_cl))`. -/
  | free (address : Nat)
  /-- A task changes the session of its client. -/
  | update (address : Nat) (session : Session)

namespace Boxes

/-- `Clients::new`. -/
def new : Boxes where
  boxes _ := none
  fresh := 0
  slots _ := 0
  made := 0
  list := []
  unlinked := []
  freed := []

/-- The client a slot points to. -/
def read (s : Boxes) (slot : Nat) : Option Client := s.boxes (s.slots slot)

/-- The clients that slots point to. -/
def readAll (s : Boxes) : List Nat → Option (List Client)
  | [] => some []
  | slot :: rest => do
      let client ← s.read slot
      let clients ← s.readAll rest
      return client :: clients

/-- A client is boxed. -/
def allocate (s : Boxes) (client : Client) : Boxes :=
  { s with boxes := Function.update s.boxes s.fresh (some client), fresh := s.fresh + 1 }

/-- A slot gets a new box, and its old one waits to be freed. -/
def swap (s : Boxes) (slot : Nat) (newCl : Client) : Boxes :=
  { s.allocate newCl with
    slots := Function.update s.slots slot s.fresh
    unlinked := s.unlinked ++ [s.slots slot] }

/-- A new slot is put in the list. -/
def place (s : Boxes) (found : Nat) (newCl : Client) : Boxes :=
  { s.allocate newCl with
    slots := Function.update s.slots s.made s.fresh
    made := s.made + 1
    list := s.list.insertIdx found s.made }

/-- `Clients::insert` at the clock reading `now`. When it fails the new box is dropped. -/
def insert (s : Boxes) (newCl : Client) (now : Nat) : Option Boxes := do
  let clients ← s.readAll s.list
  match Clients.scan newCl.clid now clients 0 with
  | .error _ => return s
  | .ok (true, i) =>
      let slot ← s.list[i]?
      return s.swap slot newCl
  | .ok (false, found) => return s.place found newCl

/-- The address of the client that `search_mut_client` lends out, if it finds one. -/
def find (s : Boxes) (clid : ClientID) : Option (Option Nat) := do
  let clients ← s.readAll s.list
  return (Clients.searchIndex clients clid).toOption.bind fun idx => s.list[idx]?.map s.slots

/-- One step. -/
def step (s : Boxes) : BoxAction → Option Boxes
  | .insert newCl now => s.insert newCl now
  | .free address =>
      if address ∈ s.unlinked then
        some { s with
          boxes := Function.update s.boxes address none
          unlinked := s.unlinked.erase address
          freed := s.freed ++ [address] }
      else none
  | .update address session =>
      (s.boxes address).map fun client => { s with
        boxes := Function.update s.boxes address (some { client with session }) }

/-- The boxes that the registry points to. -/
def registered (s : Boxes) : List Nat := s.list.map s.slots

/-- The pointers of the registry lead to the clients of a registry, in its order; every box that
was ever allocated is in the registry, or waits to be freed, or was freed, one of them and once;
and those that are not freed are allocated. -/
structure Kept (s : Boxes) (clients : List Client) : Prop where
  reads : s.readAll s.list = some clients
  ascending : Clients.Ascending clients
  accounted : (s.registered ++ (s.unlinked ++ s.freed)).Perm (List.range s.fresh)
  allocated : ∀ address, (s.boxes address).isSome = true ↔
    address ∈ s.registered ∨ address ∈ s.unlinked
  numbered : ∀ slot ∈ s.list, slot < s.made

section Reading

variable {s after : Boxes} {clients : List Client}

/-- What is read does not depend on other boxes and slots. -/
theorem readAll_congr {slots : List Nat} (same : ∀ slot ∈ slots, after.read slot = s.read slot) :
    after.readAll slots = s.readAll slots := by
  induction slots with
  | nil => rfl
  | cons slot rest inductionHypothesis =>
    rw [readAll, readAll, same slot List.mem_cons_self,
      inductionHypothesis fun other member => same other (List.mem_cons_of_mem slot member)]

theorem readAll_append {before later : List Nat} {first rest : List Client}
    (earlier : s.readAll before = some first) (after : s.readAll later = some rest) :
    s.readAll (before ++ later) = some (first ++ rest) := by
  induction before generalizing first with
  | nil =>
    cases earlier
    exact after
  | cons slot before inductionHypothesis =>
    obtain ⟨client, own, continued⟩ := Option.bind_eq_some_iff.mp earlier
    obtain ⟨others, read, same⟩ := Option.bind_eq_some_iff.mp continued
    cases same
    rw [List.cons_append, readAll, own, inductionHypothesis read]
    rfl

/-- The clients that are read are in the places of their slots. -/
theorem readAll_split {slots : List Nat} {first rest : List Client}
    (reads : s.readAll slots = some (first ++ rest)) :
    ∃ before later, slots = before ++ later ∧ before.length = first.length ∧
      s.readAll before = some first ∧ s.readAll later = some rest := by
  induction first generalizing slots with
  | nil => exact ⟨[], slots, rfl, rfl, rfl, reads⟩
  | cons client first inductionHypothesis =>
    cases slots with
    | nil => cases reads
    | cons slot slots =>
      obtain ⟨own, is, continued⟩ := Option.bind_eq_some_iff.mp reads
      obtain ⟨others, read, same⟩ := Option.bind_eq_some_iff.mp continued
      obtain ⟨rfl, rfl⟩ := List.cons.inj (Option.some.inj same)
      obtain ⟨before, later, rfl, long, earlier, after⟩ := inductionHypothesis read
      refine ⟨slot :: before, later, rfl, congrArg Nat.succ long, ?_, after⟩
      rw [readAll, is, earlier]
      rfl

theorem readAll_cons {slots : List Nat} {client : Client} {rest : List Client}
    (reads : s.readAll slots = some (client :: rest)) :
    ∃ slot later, slots = slot :: later ∧ s.read slot = some client ∧
      s.readAll later = some rest := by
  cases slots with
  | nil => cases reads
  | cons slot later =>
    obtain ⟨own, is, continued⟩ := Option.bind_eq_some_iff.mp reads
    obtain ⟨others, read, same⟩ := Option.bind_eq_some_iff.mp continued
    obtain ⟨rfl, rfl⟩ := List.cons.inj (Option.some.inj same)
    exact ⟨slot, later, rfl, is, read⟩

end Reading

section Keeping

variable {s : Boxes} {clients : List Client}

theorem kept_new : new.Kept [] where
  reads := rfl
  ascending := .nil
  accounted := .nil
  allocated address := by simp [new, registered]
  numbered := by simp [new]

theorem Kept.nodup (kept : s.Kept clients) :
    (s.registered ++ (s.unlinked ++ s.freed)).Nodup :=
  kept.accounted.nodup_iff.mpr List.nodup_range

theorem Kept.lt_fresh (kept : s.Kept clients) {address : Nat}
    (member : address ∈ s.registered ++ (s.unlinked ++ s.freed)) : address < s.fresh :=
  List.mem_range.mp (kept.accounted.mem_iff.mp member)

/-- A list of addresses in which one was replaced. -/
theorem map_update_of_ne {slots : Nat → Nat} {list : List Nat} {slot address : Nat}
    (other : ∀ listed ∈ list, listed ≠ slot) :
    list.map (Function.update slots slot address) = list.map slots := by
  refine List.map_congr_left fun listed member => ?_
  rw [Function.update_of_ne (other listed member)]

/-- Slots whose pointers are old and stay read as before. -/
theorem readAll_pointed {slots : List Nat} {slot : Nat} {newCl : Client} {next : Boxes}
    (boxes : next.boxes = Function.update s.boxes s.fresh (some newCl))
    (pointers : next.slots = Function.update s.slots slot s.fresh)
    (other : ∀ listed ∈ slots, listed ≠ slot) (old : ∀ listed ∈ slots, s.slots listed < s.fresh) :
    next.readAll slots = s.readAll slots := by
  refine readAll_congr fun listed member => ?_
  rw [read, read, boxes, pointers, Function.update_of_ne (other listed member),
    Function.update_of_ne (Nat.ne_of_lt (old listed member))]

/-- The slot that has the new box is read as the new client. -/
theorem readAll_fresh {slot : Nat} {newCl : Client} {next : Boxes} {later : List Nat}
    {rest : List Client} (boxes : next.boxes = Function.update s.boxes s.fresh (some newCl))
    (pointers : next.slots = Function.update s.slots slot s.fresh)
    (reads : next.readAll later = some rest) :
    next.readAll (slot :: later) = some (newCl :: rest) := by
  rw [readAll, read, boxes, pointers, Function.update_self, Function.update_self, reads]
  rfl

theorem Kept.pointed (kept : s.Kept clients) {slot : Nat} (listed : slot ∈ s.list) :
    s.slots slot < s.fresh :=
  kept.lt_fresh (List.mem_append_left _ (List.mem_map_of_mem listed))

/-- The dead client of a slot is replaced. -/
theorem Kept.swap {before after : List Client} {old newCl : Client}
    (kept : s.Kept (before ++ old :: after))
    (ascending : Clients.Ascending (before ++ newCl :: after)) :
    ∃ slot, s.list[before.length]? = some slot ∧
      (s.swap slot newCl).Kept (before ++ newCl :: after) := by
  obtain ⟨first, rest, split, long, earlier, continued⟩ := readAll_split kept.reads
  obtain ⟨slot, later, rfl, own, behind⟩ := readAll_cons continued
  have distinct : s.list.Nodup := List.Nodup.of_map s.slots kept.nodup.of_append_left
  rw [split, List.nodup_append] at distinct
  obtain ⟨_, laterDistinct, apart⟩ := distinct
  have firstOther : ∀ listed ∈ first, listed ≠ slot := by
    intro listed member
    exact apart listed member slot List.mem_cons_self
  have laterOther : ∀ listed ∈ later, listed ≠ slot := by
    rintro listed member rfl
    exact (List.nodup_cons.mp laterDistinct).1 member
  have pointed : ∀ listed ∈ first ++ slot :: later, s.slots listed < s.fresh := by
    rw [← split]
    exact fun listed => kept.pointed
  have registered : (s.swap slot newCl).registered =
      first.map s.slots ++ s.fresh :: later.map s.slots := by
    change s.list.map (Function.update s.slots slot s.fresh) = _
    rw [split, List.map_append, List.map_cons, map_update_of_ne firstOther,
      map_update_of_ne laterOther, Function.update_self]
  have registeredBefore : s.registered = first.map s.slots ++ s.slots slot :: later.map s.slots := by
    rw [Boxes.registered, split, List.map_append, List.map_cons]
  refine ⟨slot, by rw [split, ← long]; simp, ?_, ascending, ?_, ?_, kept.numbered⟩
  · change (s.swap slot newCl).readAll s.list = _
    rw [split]
    refine readAll_append ?_ (readAll_fresh rfl rfl ?_)
    · rw [readAll_pointed rfl rfl firstOther fun listed member =>
        pointed listed (List.mem_append_left _ member)]
      exact earlier
    · rw [readAll_pointed rfl rfl laterOther fun listed member =>
        pointed listed (List.mem_append_right _ (List.mem_cons_of_mem slot member))]
      exact behind
  · have accounted := kept.accounted
    rw [registeredBefore] at accounted
    rw [registered]
    change ((first.map s.slots ++ s.fresh :: later.map s.slots) ++
      ((s.unlinked ++ [s.slots slot]) ++ s.freed)).Perm (List.range (s.fresh + 1))
    rw [List.range_succ]
    rw [List.perm_iff_count] at accounted ⊢
    intro address
    have same := accounted address
    simp only [List.count_append, List.count_cons, List.count_nil] at same ⊢
    omega
  · intro address
    rw [registered]
    have before := kept.allocated address
    rw [registeredBefore] at before
    change (Function.update s.boxes s.fresh (some newCl) address).isSome = true ↔
      _ ∨ address ∈ s.unlinked ++ [s.slots slot]
    by_cases isFresh : address = s.fresh
    · simp [isFresh]
    · rw [Function.update_of_ne isFresh, before]
      simp only [List.mem_append, List.mem_cons, List.not_mem_nil, isFresh, or_false, false_or]
      tauto

/-- A client gets a slot of its own. -/
theorem Kept.place {before after : List Client} {newCl : Client}
    (kept : s.Kept (before ++ after))
    (ascending : Clients.Ascending (before ++ newCl :: after)) :
    (s.place before.length newCl).Kept (before ++ newCl :: after) := by
  obtain ⟨first, later, split, long, earlier, behind⟩ := readAll_split kept.reads
  have list : (s.place before.length newCl).list = first ++ s.made :: later := by
    change s.list.insertIdx before.length s.made = _
    rw [split, ← long, Clients.insertIdx_length_append]
  have other : ∀ listed ∈ first ++ later, listed ≠ s.made := by
    rw [← split]
    exact fun listed member => Nat.ne_of_lt (kept.numbered listed member)
  have pointed : ∀ listed ∈ first ++ later, s.slots listed < s.fresh := by
    rw [← split]
    exact fun listed => kept.pointed
  have registered : (s.place before.length newCl).registered =
      first.map s.slots ++ s.fresh :: later.map s.slots := by
    rw [Boxes.registered, list]
    change (first ++ s.made :: later).map (Function.update s.slots s.made s.fresh) = _
    rw [List.map_append, List.map_cons, Function.update_self,
      map_update_of_ne fun listed member => other listed (List.mem_append_left _ member),
      map_update_of_ne fun listed member => other listed (List.mem_append_right _ member)]
  have registeredBefore : s.registered = first.map s.slots ++ later.map s.slots := by
    rw [Boxes.registered, split, List.map_append]
  refine ⟨?_, ascending, ?_, ?_, ?_⟩
  · rw [list]
    refine readAll_append ?_ (readAll_fresh rfl rfl ?_)
    · rw [readAll_pointed rfl rfl (fun listed member => other listed (List.mem_append_left _ member))
        fun listed member => pointed listed (List.mem_append_left _ member)]
      exact earlier
    · rw [readAll_pointed rfl rfl
        (fun listed member => other listed (List.mem_append_right _ member))
        fun listed member => pointed listed (List.mem_append_right _ member)]
      exact behind
  · have accounted := kept.accounted
    rw [registeredBefore] at accounted
    rw [registered]
    change ((first.map s.slots ++ s.fresh :: later.map s.slots) ++ (s.unlinked ++ s.freed)).Perm
      (List.range (s.fresh + 1))
    rw [List.range_succ]
    rw [List.perm_iff_count] at accounted ⊢
    intro address
    have same := accounted address
    simp only [List.count_append, List.count_cons, List.count_nil] at same ⊢
    omega
  · intro address
    rw [registered]
    have before := kept.allocated address
    rw [registeredBefore] at before
    change (Function.update s.boxes s.fresh (some newCl) address).isSome = true ↔
      _ ∨ address ∈ s.unlinked
    by_cases isFresh : address = s.fresh
    · simp [isFresh]
    · rw [Function.update_of_ne isFresh, before]
      simp only [List.mem_append, List.mem_cons, isFresh, false_or]
  · intro slot listed
    change slot < s.made + 1
    rw [list] at listed
    rcases List.mem_append.mp listed with member | member
    · exact Nat.lt_succ_of_lt (kept.numbered slot (split ▸ List.mem_append_left _ member))
    · rcases List.mem_cons.mp member with rfl | member
      · exact Nat.lt_succ_self _
      · exact Nat.lt_succ_of_lt (kept.numbered slot (split ▸ List.mem_append_right _ member))

/-- `Clients::insert` on the pointers is `Clients::insert` on the clients. -/
theorem Kept.insert (kept : s.Kept clients) (newCl : Client) (now : Nat) :
    ∃ after, s.insert newCl now = some after ∧
      after.Kept (Clients.insert clients newCl now).2 := by
  have ascending := (Clients.insert_inserted kept.ascending newCl now).ascending kept.ascending
  have stop := Clients.scan_spec newCl.clid now clients 0
  unfold Clients.insert at ascending ⊢
  rcases verdict : Clients.scan newCl.clid now clients 0 with message | ⟨swap, i⟩ <;>
    simp only [verdict] at stop ascending ⊢
  · exact ⟨s, by simp [Boxes.insert, kept.reads, verdict], kept⟩
  · cases swap with
    | true =>
      obtain ⟨before, old, after, rfl, rfl, _⟩ := stop
      simp only [Nat.zero_add, List.set_append_right _ _ (Nat.le_refl _), Nat.sub_self,
        List.set_cons_zero] at ascending ⊢
      obtain ⟨slot, listed, swapped⟩ := kept.swap ascending
      refine ⟨s.swap slot newCl, ?_, swapped⟩
      simp [Boxes.insert, kept.reads, verdict, listed]
    | false =>
      obtain ⟨before, after, rfl, rfl, _⟩ := stop
      simp only [Nat.zero_add, Clients.insertIdx_length_append] at ascending ⊢
      refine ⟨s.place before.length newCl, ?_, kept.place ascending⟩
      simp [Boxes.insert, kept.reads, verdict]

/-- A box that was taken from its slot is freed. -/
theorem Kept.free (kept : s.Kept clients) {address : Nat} (waits : address ∈ s.unlinked) :
    Kept { s with
      boxes := Function.update s.boxes address none
      unlinked := s.unlinked.erase address
      freed := s.freed ++ [address] } clients := by
  have nodup := kept.nodup
  have unlisted : address ∉ s.registered := fun listed =>
    List.disjoint_of_nodup_append nodup listed (List.mem_append_left _ waits)
  have once : s.unlinked.Nodup := nodup.of_append_right.of_append_left
  refine ⟨?_, kept.ascending, ?_, fun other => ?_, kept.numbered⟩
  · rw [← kept.reads]
    refine readAll_congr fun slot listed => ?_
    have other : s.slots slot ≠ address := by
      rintro rfl
      exact unlisted (List.mem_map_of_mem listed)
    exact Function.update_of_ne other ..
  · have accounted := kept.accounted
    rw [List.perm_iff_count] at accounted ⊢
    intro other
    have same := accounted other
    have erased : (s.unlinked.erase address).count other = _ := List.count_erase
    have positive : 0 < s.unlinked.count address := List.count_pos_iff.mpr waits
    change (s.registered ++ (s.unlinked.erase address ++ (s.freed ++ [address]))).count other = _
    simp only [List.count_append, List.count_cons, List.count_nil, beq_iff_eq] at same erased ⊢
    by_cases mine : address = other
    · subst mine
      simp only [if_true] at erased ⊢
      omega
    · simp only [mine, if_false] at erased ⊢
      omega
  · change (Function.update s.boxes address none other).isSome = true ↔
      other ∈ s.registered ∨ other ∈ s.unlinked.erase address
    by_cases mine : other = address
    · subst mine
      simp [unlisted, once.mem_erase_iff]
    · rw [Function.update_of_ne mine, kept.allocated, List.mem_erase_of_ne mine]

/-- Clients whose boxes keep their identifiers. -/
theorem readAll_map {after : Boxes} {slots : List Nat}
    (same : ∀ slot, (after.read slot).map Client.clid = (s.read slot).map Client.clid)
    (reads : s.readAll slots = some clients) :
    ∃ changed, after.readAll slots = some changed ∧
      changed.map Client.clid = clients.map Client.clid := by
  induction slots generalizing clients with
  | nil =>
    cases reads
    exact ⟨[], rfl, rfl⟩
  | cons slot rest inductionHypothesis =>
    obtain ⟨own, is, continued⟩ := Option.bind_eq_some_iff.mp reads
    obtain ⟨others, read, equal⟩ := Option.bind_eq_some_iff.mp continued
    cases equal
    obtain ⟨changed, now, ids⟩ := inductionHypothesis read
    have here := same slot
    rw [is, Option.map_some] at here
    obtain ⟨client, isClient, id⟩ := Option.map_eq_some_iff.mp here
    exact ⟨client :: changed, by rw [readAll, isClient, now]; rfl, by simp [ids, id]⟩

theorem Kept.update (kept : s.Kept clients) {address : Nat} {client : Client}
    (isClient : s.boxes address = some client) (session : Session) :
    ∃ changed, Kept { s with
        boxes := Function.update s.boxes address (some { client with session }) } changed ∧
      changed.map Client.clid = clients.map Client.clid := by
  have boxed (other : Nat) :
      (Function.update s.boxes address (some { client with session }) other).map Client.clid =
        (s.boxes other).map Client.clid := by
    by_cases mine : other = address
    · rw [mine, Function.update_self, isClient]
      rfl
    · rw [Function.update_of_ne mine]
  let after : Boxes :=
    { s with boxes := Function.update s.boxes address (some { client with session }) }
  have sameIds (slot : Nat) : (after.boxes (s.slots slot)).map Client.clid =
      (s.boxes (s.slots slot)).map Client.clid := boxed (s.slots slot)
  obtain ⟨changed, reads, ids⟩ := readAll_map sameIds kept.reads
  refine ⟨changed, ⟨reads, ?_, kept.accounted, fun other => ?_, kept.numbered⟩, ids⟩
  · have ascending := kept.ascending
    unfold Clients.Ascending at *
    rw [← List.pairwise_map (f := Client.clid) (R := fun left right => left.cmp right = .lt)] at *
    rwa [ids]
  · have same := congrArg Option.isSome (boxed other)
    rw [Option.isSome_map, Option.isSome_map] at same
    change (Function.update s.boxes address _ other).isSome = true ↔ _
    rw [same]
    exact kept.allocated other

end Keeping

section Steps

variable {s after : Boxes} {clients : List Client} {action : BoxAction}

/-- Every step keeps the registry, and nobody leaves it. -/
theorem Kept.step (kept : s.Kept clients) (stepped : s.step action = some after) :
    ∃ changed, after.Kept changed ∧
      ∀ clid ∈ clients.map Client.clid, clid ∈ changed.map Client.clid := by
  cases action with
  | insert newCl now =>
    obtain ⟨inserted, did, still⟩ := kept.insert newCl now
    cases did.symm.trans stepped
    refine ⟨_, still, fun clid listed => ?_⟩
    obtain ⟨client, member, rfl⟩ := List.mem_map.mp listed
    obtain ⟨other, stays, same⟩ :=
      (Clients.insert_inserted kept.ascending newCl now).keeps member
    exact List.mem_map.mpr ⟨other, stays, same⟩
  | free address =>
    rw [Boxes.step] at stepped
    split at stepped
    · rename_i waits
      cases stepped
      exact ⟨clients, kept.free waits, fun _ => id⟩
    · cases stepped
  | update address session =>
    obtain ⟨client, isClient, rfl⟩ := Option.map_eq_some_iff.mp stepped
    obtain ⟨changed, still, ids⟩ := kept.update isClient session
    exact ⟨changed, still, fun clid listed => ids ▸ listed⟩

/-- What is in an old box after a step was in it before, up to its session. -/
theorem box_of_step (stepped : s.step action = some after) {address : Nat}
    (old : address < s.fresh) :
    address < after.fresh ∧ ∀ client, after.boxes address = some client →
      ∃ before, s.boxes address = some before ∧ before.clid = client.clid := by
  have other : address ≠ s.fresh := Nat.ne_of_lt old
  cases action with
  | insert newCl now =>
    simp only [Boxes.step, Boxes.insert] at stepped
    obtain ⟨clients, _, placed⟩ := Option.bind_eq_some_iff.mp stepped
    split at placed
    · cases placed
      exact ⟨old, fun client isClient => ⟨client, isClient, rfl⟩⟩
    · obtain ⟨slot, _, placed⟩ := Option.bind_eq_some_iff.mp placed
      cases placed
      refine ⟨Nat.lt_succ_of_lt old, fun client isClient => ⟨client, ?_, rfl⟩⟩
      rw [← isClient]
      exact (Function.update_of_ne other ..).symm
    · cases placed
      refine ⟨Nat.lt_succ_of_lt old, fun client isClient => ⟨client, ?_, rfl⟩⟩
      rw [← isClient]
      exact (Function.update_of_ne other ..).symm
  | free freed =>
    rw [Boxes.step] at stepped
    split at stepped
    · cases stepped
      refine ⟨old, fun client isClient => ⟨client, ?_, rfl⟩⟩
      by_cases mine : address = freed
      · simp [mine] at isClient
      · rw [← isClient]
        exact (Function.update_of_ne mine ..).symm
    · cases stepped
  | update changed session =>
    obtain ⟨before, isBefore, rfl⟩ := Option.map_eq_some_iff.mp stepped
    refine ⟨old, fun client isClient => ?_⟩
    by_cases mine : address = changed
    · subst mine
      simp only [Function.update_self, Option.some.injEq] at isClient
      exact ⟨before, isBefore, by rw [← isClient]⟩
    · simp only [Function.update_of_ne mine] at isClient
      exact ⟨client, isClient, rfl⟩

/-- The search finds the client with the identifier, in the box of its slot. -/
theorem Kept.find_eq_some (kept : s.Kept clients) {clid : ClientID} {address : Nat}
    (found : s.find clid = some (some address)) :
    clid ∈ clients.map Client.clid ∧ address < s.fresh ∧
      ∃ client, s.boxes address = some client ∧ client.clid = clid := by
  rw [find, kept.reads] at found
  simp only [Option.bind_eq_bind, Option.bind_some, Option.pure_def, Option.some.injEq] at found
  rcases Clients.searchIndex_spec kept.ascending clid with
    ⟨idx, client, answer, listed, same⟩ | ⟨_, answer, _⟩
  · rw [answer, Except.toOption, Option.bind_some, Option.map_eq_some_iff] at found
    obtain ⟨slot, place, rfl⟩ := found
    have isClient : client.clid = clid := ClientID.ext same
    obtain ⟨split, long⟩ := List.getElem?_eq_some_iff.mp listed
    have parts : clients = clients.take idx ++ client :: clients.drop (idx + 1) := by
      rw [← long, List.cons_getElem_drop_succ, List.take_append_drop]
    have reads := kept.reads
    rw [parts] at reads
    obtain ⟨first, rest, list, sameLength, _, continued⟩ := readAll_split reads
    obtain ⟨own, later, rfl, isOwn, _⟩ := readAll_cons continued
    have isSlot : own = slot := by
      rw [list, List.getElem?_append_right (by simp [sameLength]), sameLength] at place
      simpa [List.length_take, Nat.min_eq_left (Nat.le_of_lt split)] using place
    subst isSlot
    exact ⟨List.mem_map.mpr ⟨client, List.mem_of_getElem? listed, isClient⟩,
      kept.pointed (List.mem_of_getElem? place), client, isOwn, isClient⟩
  · rw [answer] at found
    cases found

end Steps

end Boxes
end Sipusu.MessageBroker
