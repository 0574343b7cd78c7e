import Sipusu.Foundation.Reader

/-!
# Paths

A path leads from directory to directory, to the parent or down to a name. What it
amounts to, whatever directory it starts from, is a number of steps up and then names.
The text of a path is cut at its slashes.
-/

namespace Sipusu.Foundation.Path

/-- One step of a path. -/
inductive Segment (α : Type) where
  | parent
  | name (name : α)
deriving DecidableEq

/-- Steps up, and then names down. -/
structure Travel (α : Type) where
  ups : Nat
  names : List α
deriving DecidableEq

section Steps

variable {α : Type}

/-- The directory that a step leads to. A directory is the names on the way from the root,
which is its own parent. -/
def enter (dir : List α) : Segment α → List α
  | .parent => dir.dropLast
  | .name name => dir ++ [name]

/-- The directory that a path leads to. -/
def resolve (dir : List α) (segments : List (Segment α)) : List α := segments.foldl enter dir

/-- A step more. A step up cancels the last name, if there is one. -/
def Travel.extend (travel : Travel α) : Segment α → Travel α
  | .parent =>
      if travel.names.isEmpty then ⟨travel.ups + 1, []⟩ else ⟨travel.ups, travel.names.dropLast⟩
  | .name name => ⟨travel.ups, travel.names ++ [name]⟩

/-- What a path amounts to. -/
def travel (segments : List (Segment α)) : Travel α := segments.foldl Travel.extend ⟨0, []⟩

/-- Where a travel leads. -/
def Travel.arrive (dir : List α) (travel : Travel α) : List α :=
  dir.take (dir.length - travel.ups) ++ travel.names

theorem resolve_append (dir : List α) (front back : List (Segment α)) :
    resolve dir (front ++ back) = resolve (resolve dir front) back := List.foldl_append

theorem enter_arrive (dir : List α) (travel : Travel α) (segment : Segment α) :
    enter (travel.arrive dir) segment = (travel.extend segment).arrive dir := by
  cases segment with
  | name name => rw [enter, Travel.arrive, Travel.extend, Travel.arrive, List.append_assoc]
  | parent =>
    obtain ⟨ups, names⟩ := travel
    cases names with
    | nil =>
      simp only [enter, Travel.arrive, Travel.extend, List.append_nil, List.isEmpty_nil, if_true]
      rw [List.dropLast_eq_take, List.take_take, List.length_take]
      congr 1
      omega
    | cons first rest =>
      have more : first :: rest ≠ [] := List.cons_ne_nil first rest
      simp [enter, Travel.arrive, Travel.extend, List.dropLast_append_of_ne_nil more]

/-- A path leads where the travel it amounts to leads. -/
theorem resolve_eq_arrive (dir : List α) (segments : List (Segment α)) :
    resolve dir segments = (travel segments).arrive dir := by
  have run : ∀ start : Travel α, segments.foldl enter (start.arrive dir) =
      (segments.foldl Travel.extend start).arrive dir := by
    induction segments with
    | nil => exact fun start => rfl
    | cons segment rest inductionHypothesis =>
      intro start
      rw [List.foldl_cons, List.foldl_cons, enter_arrive, inductionHypothesis]
  have start : (⟨0, []⟩ : Travel α).arrive dir = dir := by simp [Travel.arrive]
  have whole := run ⟨0, []⟩
  rwa [start] at whole

/-- A travel leads to a given place below its start exactly when it comes back down through
the names that it has climbed over. -/
theorem arrive_eq_append_iff {dir names : List α} {travel : Travel α} :
    travel.arrive dir = dir ++ names ↔
      travel.names = dir.drop (dir.length - travel.ups) ++ names := by
  rw [Travel.arrive]
  conv_lhs => rw [← List.take_append_drop (dir.length - travel.ups) dir, List.append_assoc]
  simp

end Steps

section Octets

/-- The octet between the parts of a path. -/
def slash : UInt8 := 0x2F

/-- The step that a part of a path stands for. -/
def segment? (part : Bytes) : Option (Segment Bytes) :=
  if part = [] then none
  else if part = [0x2E] then none
  else if part = [0x2E, 0x2E] then some .parent
  else some (.name part)

/-- The steps of a path. -/
def segments (path : Bytes) : List (Segment Bytes) := (path.splitOn slash).filterMap segment?

/-- The path starts at the root. -/
def Absolute (path : Bytes) : Prop := path.head? = some slash

instance (path : Bytes) : Decidable (Absolute path) := inferInstanceAs (Decidable (_ = _))

/-- `PathBuf::push`. -/
def push (path other : Bytes) : Bytes :=
  if Absolute other then other
  else if path.getLast?.all (· = slash) then path ++ other
  else path ++ slash :: other

@[simp] theorem segments_nil : segments [] = [] := rfl

theorem segments_append_slash (front back : Bytes) :
    segments (front ++ slash :: back) = segments front ++ segments back := by
  rw [segments, List.splitOn_append_cons_self, List.filterMap_append]
  rfl

/-- Pushing a relative path goes on from where the first path leads. -/
theorem segments_push {path other : Bytes} (relative : ¬ Absolute other) :
    segments (push path other) = segments path ++ segments other := by
  rw [push, if_neg relative]
  rcases List.eq_nil_or_concat path with rfl | ⟨front, last, rfl⟩
  · rfl
  · rw [List.concat_eq_append]
    by_cases closed : last = slash
    · have noSeparator : (front ++ [last]).getLast?.all (· = slash) = true := by simp [closed]
      rw [if_pos noSeparator, closed, List.append_assoc, List.singleton_append,
        segments_append_slash, segments_append_slash, segments_nil, List.append_nil]
    · have separator : ¬ (front ++ [last]).getLast?.all (· = slash) = true := by simp [closed]
      rw [if_neg separator, segments_append_slash]

theorem segments_push_absolute {path other : Bytes} (absolute : Absolute other) :
    segments (push path other) = segments other := by
  rw [push, if_pos absolute]

end Octets

end Sipusu.Foundation.Path
