import Mathlib

/-!
# Streams that several writers share

Writers append frames to one stream, each in pieces of its own choice. An octet is the
frame it belongs to and its place there, so a stream tells which frames it holds in one
piece. Where a frame is cut by an octet of another one, no grouping into frames is left.
-/

namespace Sipusu.Foundation.Stream

universe u

variable {α : Type u} (size : α → Nat)

/-- Octets of one frame, from a place on. -/
def piece (frame : α) (start n : Nat) : List (α × Nat) := (List.range' start n).map (Prod.mk frame)

/-- Whole frames one after another. -/
def wholes (frames : List α) : List (α × Nat) :=
  frames.flatMap fun frame => piece frame 0 (size frame)

/-- An octet may come after another: as the next one of the same frame, or as the first one
behind a frame's last. -/
def Follows (earlier later : α × Nat) : Prop :=
  later = (earlier.1, earlier.2 + 1) ∨ earlier.2 + 1 = size earlier.1 ∧ later.2 = 0

@[simp] theorem piece_zero (frame : α) (start : Nat) : piece frame start 0 = [] := rfl

theorem piece_succ (frame : α) (start n : Nat) :
    piece frame start (n + 1) = (frame, start) :: piece frame (start + 1) n := rfl

theorem mem_piece {frame : α} {start n : Nat} {octet : α × Nat}
    (member : octet ∈ piece frame start n) : octet.1 = frame := by
  obtain ⟨_, _, rfl⟩ := List.mem_map.mp member
  rfl

/-- A condition on frames picks a whole piece or none of it. -/
theorem filter_piece (picked : α → Prop) [DecidablePred picked] (frame : α) (start n : Nat) :
    (piece frame start n).filter (fun octet => picked octet.1) =
      if picked frame then piece frame start n else [] := by
  split
  · rename_i holds
    rw [List.filter_eq_self]
    intro octet member
    rw [mem_piece member]
    exact decide_eq_true holds
  · rename_i fails
    rw [List.filter_eq_nil_iff]
    intro octet member
    rw [mem_piece member]
    simpa using fails

/-- The next piece of a frame continues the one before. -/
theorem piece_append (frame : α) (n m : Nat) :
    piece frame 0 n ++ piece frame n m = piece frame 0 (n + m) := by
  rw [piece, piece, piece, ← List.map_append, ← List.range'_append_1, Nat.zero_add]

theorem getLast?_piece (frame : α) (start n : Nat) :
    (piece frame start (n + 1)).getLast? = some (frame, start + n) := by
  rw [piece, List.range'_concat, List.map_append, List.map_singleton, List.getLast?_concat,
    Nat.one_mul]

/-- A frame that has been written to its end joins the whole ones. -/
theorem wholes_concat (frames : List α) (frame : α) :
    wholes size frames ++ piece frame 0 (size frame) = wholes size (frames ++ [frame]) := by
  simp [wholes]

theorem isChain_piece (frame : α) (start n : Nat) :
    (piece frame start n).IsChain (Follows size) := by
  induction n generalizing start with
  | zero => exact .nil
  | succ n inductionHypothesis =>
    rw [piece_succ]
    refine (inductionHypothesis (start + 1)).cons ?_
    cases n with
    | zero => exact nofun
    | succ n =>
      rintro next first
      rw [piece_succ, List.head?_cons, Option.mem_some_iff] at first
      exact .inl first.symm

/-- The first octet behind whole frames is the first of its frame. -/
theorem head?_wholes_append (frames : List α) (frame : α) (n : Nat) :
    ∀ octet ∈ (wholes size frames ++ piece frame 0 n).head?, octet.2 = 0 := by
  have first (frame : α) (n : Nat) : ∀ octet ∈ (piece frame 0 n).head?, octet.2 = 0 := by
    cases n with
    | zero => exact nofun
    | succ n =>
      rintro octet isFirst
      rw [piece_succ, List.head?_cons, Option.mem_some_iff] at isFirst
      rw [← isFirst]
  induction frames with
  | nil => exact first frame n
  | cons next rest inductionHypothesis =>
    rw [wholes, List.flatMap_cons, List.append_assoc]
    cases length : size next with
    | zero => exact inductionHypothesis
    | succ length =>
      rw [piece_succ, List.cons_append, List.head?_cons]
      rintro octet isFirst
      rw [Option.mem_some_iff] at isFirst
      rw [← isFirst]

/-- In whole frames and the front of another, every octet follows the one before it. -/
theorem isChain_wholes_append (frames : List α) (frame : α) (n : Nat) :
    (wholes size frames ++ piece frame 0 n).IsChain (Follows size) := by
  induction frames with
  | nil => exact isChain_piece size frame 0 n
  | cons next rest inductionHypothesis =>
    rw [wholes, List.flatMap_cons, List.append_assoc]
    refine (isChain_piece size next 0 _).append inductionHypothesis ?_
    rintro last isLast first isFirst
    cases length : size next with
    | zero =>
      rw [length] at isLast
      cases isLast
    | succ length =>
      rw [length, getLast?_piece, Option.mem_some_iff] at isLast
      subst isLast
      exact .inr ⟨by simp [length], head?_wholes_append size rest frame n first isFirst⟩

/-- A frame cut by an octet of another one cannot be grouped into frames again. -/
theorem not_isChain_of_cut (frames : List α) {frame other : α} (different : other ≠ frame)
    {n : Nat} (begun : 0 < n) (unfinished : n < size frame) (start : Nat) {m : Nat}
    (some : 0 < m) :
    ¬ (wholes size frames ++ piece frame 0 n ++ piece other start m).IsChain (Follows size) := by
  intro chain
  obtain ⟨n, rfl⟩ := Nat.exists_eq_add_one_of_ne_zero (Nat.ne_of_gt begun)
  obtain ⟨m, rfl⟩ := Nat.exists_eq_add_one_of_ne_zero (Nat.ne_of_gt some)
  have last : (frame, 0 + n) ∈ (wholes size frames ++ piece frame 0 (n + 1)).getLast? := by
    rw [List.getLast?_append, getLast?_piece, Option.some_or]
    rfl
  have first : (other, start) ∈ (piece other start (m + 1)).head? := by
    rw [piece_succ]
    rfl
  rcases (List.isChain_append.mp chain).2.2 _ last _ first with same | ⟨ended, _⟩
  · exact different (congrArg Prod.fst same)
  · simp only [Nat.zero_add] at ended
    omega

@[simp] theorem length_piece (frame : α) (start n : Nat) : (piece frame start n).length = n := by
  simp [piece]

theorem nodup_piece (frame : α) (start n : Nat) : (piece frame start n).Nodup :=
  List.Nodup.map (fun _ _ same => congrArg Prod.snd same) List.nodup_range'

@[simp] theorem wholes_nil : wholes size ([] : List α) = [] := rfl

@[simp] theorem wholes_cons (frame : α) (frames : List α) :
    wholes size (frame :: frames) = piece frame 0 (size frame) ++ wholes size frames := rfl

theorem wholes_append (before after : List α) :
    wholes size (before ++ after) = wholes size before ++ wholes size after :=
  List.flatMap_append

theorem mem_wholes {frames : List α} {octet : α × Nat} :
    octet ∈ wholes size frames ↔ octet.1 ∈ frames ∧ octet.2 < size octet.1 := by
  obtain ⟨frame, place⟩ := octet
  simp only [wholes, piece, List.mem_flatMap, List.mem_map, List.mem_range'_1, Prod.mk.injEq]
  constructor
  · rintro ⟨other, member, offset, inside, rfl, rfl⟩
    exact ⟨member, by omega⟩
  · rintro ⟨member, inside⟩
    exact ⟨frame, member, place, by omega, rfl, rfl⟩

/-- Octets of different frames are different. -/
theorem nodup_wholes {frames : List α} (distinct : frames.Nodup) : (wholes size frames).Nodup := by
  induction frames with
  | nil => exact .nil
  | cons frame frames inductionHypothesis =>
    obtain ⟨fresh, later⟩ := List.nodup_cons.mp distinct
    rw [wholes_cons, List.nodup_append]
    refine ⟨nodup_piece .., inductionHypothesis later, ?_⟩
    rintro octet first other behind rfl
    exact fresh (mem_piece first ▸ (mem_wholes size).mp behind |>.1)

/-- A window of the whole frames that lies within one of them. -/
theorem window_wholes (before : List α) (frame : α) (after : List α) {start n : Nat}
    (within : start + n ≤ size frame) :
    ((wholes size (before ++ frame :: after)).drop ((wholes size before).length + start)).take n =
      piece frame start n := by
  have cut : piece frame 0 (size frame) =
      piece frame 0 start ++ (piece frame start n ++
        piece frame (start + n) (size frame - (start + n))) := by
    rw [← List.append_assoc, piece_append, piece_append, Nat.add_sub_cancel' within]
  rw [wholes_append, List.drop_length_add_append, wholes_cons, cut, List.append_assoc,
    List.append_assoc, List.drop_left' (length_piece ..), List.take_left' (length_piece ..)]

/-- A front that reaches a frame holds all that stands before it. -/
theorem wholes_isPrefix_take {before after : List α} {frame : α} (fresh : frame ∉ before) {n place : Nat}
    (member : (frame, place) ∈ (wholes size (before ++ frame :: after)).take n) :
    wholes size before <+: (wholes size (before ++ frame :: after)).take n := by
  rw [wholes_append] at member ⊢
  rcases Nat.lt_or_ge (wholes size before).length n with long | short
  · rw [List.take_append, List.take_of_length_le (Nat.le_of_lt long)]
    exact List.prefix_append ..
  · rw [List.take_append_of_le_length short] at member
    exact absurd ((mem_wholes size).mp (List.mem_of_mem_take member)).1 fresh

/-- A front that ends within a frame holds no octet of it beyond that place. -/
theorem lt_of_mem_take {before after : List α} {frame : α} (fresh : frame ∉ before)
    {written place : Nat} (member : (frame, place) ∈
      (wholes size (before ++ frame :: after)).take ((wholes size before).length + written)) :
    place < written := by
  have inside : place < size frame := ((mem_wholes size).mp (List.mem_of_mem_take member)).2
  by_cases within : 0 + written ≤ size frame
  · have window := window_wholes size before frame after within
    rw [Nat.add_zero] at window
    rw [List.take_add, window, wholes_append, List.take_left, List.mem_append] at member
    rcases member with earlier | mine
    · exact absurd ((mem_wholes size).mp earlier).1 fresh
    · simpa [piece] using mine
  · exact Nat.lt_trans inside (by omega)

end Sipusu.Foundation.Stream
