import Mathlib

/-!
# Association lists as hash maps

The contents of a hash map as a list of entries. Lookups take the first entry
of a key; where keys are distinct that is its only entry. The order of the list
stands for the map's iteration order, which nothing may rely on.
-/

namespace Sipusu.Foundation.Assoc

universe u v

variable {κ : Type u} {ν : Type v} [DecidableEq κ]

/-- `HashMap::get`. -/
def get (key : κ) : List (κ × ν) → Option ν
  | [] => none
  | (other, value) :: rest => if other = key then some value else get key rest

/-- `HashMap::remove`. -/
def remove (key : κ) (entries : List (κ × ν)) : List (κ × ν) :=
  entries.filter fun entry => entry.1 ≠ key

/-- `HashMap::insert`. -/
def insert (key : κ) (value : ν) (entries : List (κ × ν)) : List (κ × ν) :=
  (key, value) :: remove key entries

/-- Overwrite a value in place, as through a reference to it. -/
def set (key : κ) (value : ν) : List (κ × ν) → List (κ × ν)
  | [] => []
  | (other, old) :: rest =>
      if other = key then (other, value) :: rest else (other, old) :: set key value rest

/-- The keys, in iteration order. -/
def keys (entries : List (κ × ν)) : List κ := entries.map Prod.fst

@[simp] theorem get_nil (key : κ) : get key ([] : List (κ × ν)) = none := rfl

theorem get_cons (key other : κ) (value : ν) (rest : List (κ × ν)) :
    get key ((other, value) :: rest) = if other = key then some value else get key rest := rfl

theorem remove_cons (key other : κ) (value : ν) (rest : List (κ × ν)) :
    remove key ((other, value) :: rest) =
      if other = key then remove key rest else (other, value) :: remove key rest := by
  by_cases same : other = key
  · simp [remove, same]
  · simp [remove, same]

/-- A key is bound exactly when it is listed. -/
theorem get_eq_none_iff {key : κ} {entries : List (κ × ν)} :
    get key entries = none ↔ key ∉ keys entries := by
  induction entries with
  | nil => simp [keys]
  | cons entry rest inductionHypothesis =>
    obtain ⟨other, value⟩ := entry
    rw [get_cons]
    by_cases same : other = key
    · simp [same, keys]
    · have different : key ≠ other := Ne.symm same
      simpa [same, different, keys] using inductionHypothesis

theorem get_isSome_iff {key : κ} {entries : List (κ × ν)} :
    (get key entries).isSome ↔ key ∈ keys entries := by
  rw [Option.isSome_iff_ne_none, ne_eq, get_eq_none_iff, not_not]

@[simp] theorem get_remove_self (key : κ) (entries : List (κ × ν)) :
    get key (remove key entries) = none := by
  rw [get_eq_none_iff]
  simp [keys, remove]

@[simp] theorem get_remove_ne {key other : κ} (different : other ≠ key) (entries : List (κ × ν)) :
    get other (remove key entries) = get other entries := by
  induction entries with
  | nil => rfl
  | cons entry rest inductionHypothesis =>
    obtain ⟨name, value⟩ := entry
    rw [remove_cons]
    by_cases removed : name = key
    · have skipped : name ≠ other := fun equal => different (equal.symm.trans removed)
      rw [if_pos removed, get_cons, if_neg skipped, inductionHypothesis]
    · rw [if_neg removed, get_cons, get_cons, inductionHypothesis]

@[simp] theorem get_insert_self (key : κ) (value : ν) (entries : List (κ × ν)) :
    get key (insert key value entries) = some value := by
  simp [insert, get_cons]

@[simp] theorem get_insert_ne {key other : κ} (different : other ≠ key) (value : ν)
    (entries : List (κ × ν)) : get other (insert key value entries) = get other entries := by
  simp [insert, get_cons, different.symm, get_remove_ne different]

/-- Overwriting a bound key rebinds it. -/
theorem get_set_self {key : κ} {value old : ν} {entries : List (κ × ν)}
    (bound : get key entries = some old) : get key (set key value entries) = some value := by
  induction entries with
  | nil => cases bound
  | cons entry rest inductionHypothesis =>
    obtain ⟨other, current⟩ := entry
    rw [get_cons] at bound
    by_cases same : other = key
    · simp [set, same, get_cons]
    · simp only [same, if_false] at bound
      simpa [set, same, get_cons] using inductionHypothesis bound

@[simp] theorem get_set_ne {key other : κ} (different : other ≠ key) (value : ν)
    (entries : List (κ × ν)) : get other (set key value entries) = get other entries := by
  induction entries with
  | nil => rfl
  | cons entry rest inductionHypothesis =>
    obtain ⟨name, current⟩ := entry
    by_cases same : name = key
    · simp [set, same, get_cons, different.symm]
    · simp [set, same, get_cons, inductionHypothesis]

@[simp] theorem keys_set (key : κ) (value : ν) (entries : List (κ × ν)) :
    keys (set key value entries) = keys entries := by
  induction entries with
  | nil => rfl
  | cons entry rest inductionHypothesis =>
    obtain ⟨other, current⟩ := entry
    by_cases same : other = key
    · simp [set, same, keys]
    · simpa [set, same, keys] using inductionHypothesis

theorem keys_remove_nodup {key : κ} {entries : List (κ × ν)} (nodup : (keys entries).Nodup) :
    (keys (remove key entries)).Nodup :=
  nodup.sublist (List.filter_sublist.map Prod.fst)

theorem keys_insert_nodup {key : κ} {value : ν} {entries : List (κ × ν)}
    (nodup : (keys entries).Nodup) : (keys (insert key value entries)).Nodup := by
  simp only [insert, keys, List.map_cons, List.nodup_cons]
  exact ⟨by simp [remove], keys_remove_nodup nodup⟩

theorem keys_foldl_remove_nodup {removed : List κ} {entries : List (κ × ν)}
    (nodup : (keys entries).Nodup) :
    (keys (removed.foldl (fun entries key => remove key entries) entries)).Nodup := by
  induction removed generalizing entries with
  | nil => exact nodup
  | cons first rest inductionHypothesis => exact inductionHypothesis (keys_remove_nodup nodup)

/-- Removing several keys one after another removes exactly those keys. -/
theorem get_foldl_remove (key : κ) (removed : List κ) (entries : List (κ × ν)) :
    get key (removed.foldl (fun entries key => remove key entries) entries) =
      if key ∈ removed then none else get key entries := by
  induction removed generalizing entries with
  | nil => simp
  | cons first rest inductionHypothesis =>
    rw [List.foldl_cons, inductionHypothesis]
    by_cases same : key = first
    · simp [same]
    · simp [same, get_remove_ne same]

/-- The entries left are those whose key is not among the removed ones. -/
theorem foldl_remove_eq_filter (removed : List κ) (entries : List (κ × ν)) :
    removed.foldl (fun entries key => remove key entries) entries =
      entries.filter fun entry => entry.1 ∉ removed := by
  induction removed generalizing entries with
  | nil => simp
  | cons first rest inductionHypothesis =>
    rw [List.foldl_cons, inductionHypothesis, remove, List.filter_filter]
    refine List.filter_congr fun entry _ => ?_
    by_cases same : entry.1 = first
    · simp [same]
    · simp [same]

/-- Where a key is found, and what overwriting its value leaves. -/
theorem get_split {key : κ} {old : ν} {entries : List (κ × ν)} (found : get key entries = some old) :
    ∃ before after, entries = before ++ (key, old) :: after ∧
      ∀ value, set key value entries = before ++ (key, value) :: after := by
  induction entries with
  | nil => cases found
  | cons entry rest inductionHypothesis =>
    obtain ⟨other, current⟩ := entry
    rw [get_cons] at found
    by_cases same : other = key
    · rw [if_pos same, Option.some.injEq] at found
      exact ⟨[], rest, by rw [same, found, List.nil_append], fun value => by simp [set, same]⟩
    · rw [if_neg same] at found
      obtain ⟨before, after, rfl, overwritten⟩ := inductionHypothesis found
      exact ⟨(other, current) :: before, after, rfl, fun value => by simp [set, same, overwritten]⟩

theorem remove_of_get_none {key : κ} {entries : List (κ × ν)} (missing : get key entries = none) :
    remove key entries = entries := by
  rw [remove, List.filter_eq_self]
  intro entry member
  rw [get_eq_none_iff] at missing
  exact decide_eq_true fun same => missing (same ▸ List.mem_map_of_mem member)

theorem mem_of_get {key : κ} {value : ν} {entries : List (κ × ν)}
    (found : get key entries = some value) : (key, value) ∈ entries := by
  induction entries with
  | nil => cases found
  | cons entry rest inductionHypothesis =>
    obtain ⟨other, current⟩ := entry
    rw [get_cons] at found
    by_cases same : other = key
    · simp only [same, if_true, Option.some.injEq] at found
      simp [same, found]
    · rw [if_neg same] at found
      exact List.mem_cons_of_mem _ (inductionHypothesis found)

section Distinct

/-- Where keys are distinct, being listed is being looked up. -/
theorem mem_iff_get {entries : List (κ × ν)} (nodup : (keys entries).Nodup) {key : κ} {value : ν} :
    (key, value) ∈ entries ↔ get key entries = some value := by
  induction entries with
  | nil => simp
  | cons entry rest inductionHypothesis =>
    obtain ⟨other, current⟩ := entry
    obtain ⟨fresh, restNodup⟩ := List.nodup_cons.mp nodup
    rw [List.mem_cons, Prod.mk.injEq, get_cons]
    by_cases same : other = key
    · subst same
      have unlisted : (other, value) ∉ rest := fun member =>
        fresh (List.mem_map.mpr ⟨_, member, rfl⟩)
      simp [unlisted, eq_comm]
    · have different : key ≠ other := Ne.symm same
      simp [same, different, inductionHypothesis restNodup]

omit [DecidableEq κ] in
theorem nodup_of_keys {entries : List (κ × ν)} (nodup : (keys entries).Nodup) : entries.Nodup :=
  List.Nodup.of_map Prod.fst nodup

omit [DecidableEq κ] in
theorem keys_perm_nodup {left right : List (κ × ν)} (perm : left.Perm right)
    (nodup : (keys right).Nodup) : (keys left).Nodup :=
  (perm.map Prod.fst).nodup_iff.mpr nodup

/-- The order of the entries does not matter to a lookup. -/
theorem get_perm {left right : List (κ × ν)} (perm : left.Perm right)
    (nodup : (keys right).Nodup) (key : κ) : get key left = get key right := by
  apply Option.ext
  intro value
  rw [← mem_iff_get (keys_perm_nodup perm nodup), ← mem_iff_get nodup, perm.mem_iff]

/-- Maps that look up alike have the same entries. -/
theorem perm_of_get {left right : List (κ × ν)} (leftNodup : (keys left).Nodup)
    (rightNodup : (keys right).Nodup) (same : ∀ key, get key left = get key right) :
    left.Perm right := by
  rw [List.perm_ext_iff_of_nodup (nodup_of_keys leftNodup) (nodup_of_keys rightNodup)]
  rintro ⟨key, value⟩
  rw [mem_iff_get leftNodup, mem_iff_get rightNodup, same]

/-- Inserting entries with distinct keys one after another. -/
theorem get_foldl_insert {added : List (κ × ν)} (nodup : (keys added).Nodup)
    (entries : List (κ × ν)) (key : κ) :
    get key (added.foldl (fun entries entry => insert entry.1 entry.2 entries) entries) =
      (get key added).or (get key entries) := by
  induction added generalizing entries with
  | nil => simp
  | cons first rest inductionHypothesis =>
    obtain ⟨other, value⟩ := first
    obtain ⟨fresh, restNodup⟩ := List.nodup_cons.mp nodup
    rw [List.foldl_cons, inductionHypothesis restNodup, get_cons]
    by_cases same : other = key
    · subst same
      rw [get_insert_self, get_eq_none_iff.mpr fresh, if_pos rfl]
      rfl
    · rw [get_insert_ne (Ne.symm same), if_neg same]

end Distinct

end Sipusu.Foundation.Assoc
