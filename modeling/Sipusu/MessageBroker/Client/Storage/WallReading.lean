import Sipusu.MessageBroker.Client.Storage.Wall

/-!
# When a session log reads back

A log reads back whole exactly when every multiple of the buffer's length falls on
the end of a line; otherwise the reader aborts. The session part of
`ClientStore::restore` decides on what was read.
-/

namespace Sipusu.MessageBroker

open Sipusu.Foundation

/-- Some of the first lines of a log take exactly `n` octets. -/
def AtLineEnd (wall : List WALL) (n : Nat) : Prop :=
  ∃ front back, wall = front ++ back ∧ (writeWall front).length = n

/-- Every piece of the log but the last ends with a line. -/
def Aligned (wall : List WALL) : Prop :=
  ∀ k, wallBuffer * k < (writeWall wall).length → AtLineEnd wall (wallBuffer * k)

section Lines

theorem takeLine_newline {ε : Type} {line : Bytes} (single : 0x0A ∉ line) (rest : Bytes) :
    (takeLine (line ++ 0x0A :: rest) : Outcome ε (Bytes × Bytes)) =
      .ok (line ++ [0x0A], rest) := by
  induction line with
  | nil => rfl
  | cons byte line inductionHypothesis =>
    rw [List.mem_cons, not_or] at single
    simp [takeLine, Ne.symm single.1, inductionHypothesis single.2]

theorem takeLine_open {ε : Type} {tail : Bytes} (unended : 0x0A ∉ tail) :
    (takeLine tail : Outcome ε (Bytes × Bytes)) = .panic := by
  induction tail with
  | nil => rfl
  | cons byte tail inductionHypothesis =>
    rw [List.mem_cons, not_or] at unended
    simp [takeLine, Ne.symm unended.1, inductionHypothesis unended.2]

theorem takeLine_shrinks {ε : Type} {buffer line rest : Bytes}
    (taken : (takeLine buffer : Outcome ε (Bytes × Bytes)) = .ok (line, rest)) :
    rest.length < buffer.length := by
  induction buffer generalizing line with
  | nil => cases taken
  | cons byte buffer inductionHypothesis =>
    simp only [takeLine] at taken
    split at taken
    · simp only [Outcome.ok.injEq, Prod.mk.injEq] at taken
      rw [← taken.2]
      exact Nat.lt_succ_self _
    · obtain ⟨⟨front, left⟩, inner, same⟩ := Outcome.bind_eq_ok.mp taken
      simp only [Outcome.ok.injEq, Prod.mk.injEq] at same
      rw [same.2] at inner
      exact Nat.lt_succ_of_lt (inductionHypothesis inner)

theorem readLine_shrinks : Reader.Shrinks readLine := by
  intro wall buffer next rest _ result
  simp only [readLine, Reader.bind_apply, Outcome.bind_eq_ok] at result
  obtain ⟨⟨line, left⟩, taken, ⟨_, kept⟩, lifted, same⟩ := result
  obtain ⟨_, _, unread⟩ := Outcome.bind_eq_ok.mp lifted
  simp only [Reader.pure_apply, Outcome.ok.injEq, Prod.mk.injEq] at same unread
  rw [← same.2, ← unread.2]
  exact takeLine_shrinks taken

theorem readLine_serialize (wall : List WALL) (entry : WALL) (rest : Bytes) :
    readLine wall (entry.serialize ++ rest) = .ok (wall ++ [entry], rest) := by
  have line : takeLine (entry.serialize ++ rest) =
      (.ok (entry.serialize, rest) : Outcome IoError (Bytes × Bytes)) := by
    simpa [WALL.serialize] using takeLine_newline entry.newline_not_mem_body rest
  simp [readLine, line, WALL.deserialize_serialize]

theorem serialize_ne_nil (entry : WALL) : entry.serialize ≠ [] := by
  simp [WALL.serialize]

theorem writeWall_cons (entry : WALL) (wall : List WALL) :
    writeWall (entry :: wall) = entry.serialize ++ writeWall wall := rfl

theorem writeWall_append (front back : List WALL) :
    writeWall (front ++ back) = writeWall front ++ writeWall back := by
  simp [writeWall]

/-- The inner loop on whole lines with an unended rest. -/
theorem readLines (acc wall : List WALL) {tail : Bytes} (unended : 0x0A ∉ tail) :
    Reader.whileNonempty readLine acc (writeWall wall ++ tail) =
      if tail = [] then .ok (acc ++ wall, []) else .panic := by
  induction wall generalizing acc with
  | nil =>
    cases tail with
    | nil => simp [writeWall]
    | cons byte tail =>
      rw [writeWall, List.flatMap_nil, List.nil_append,
        Reader.whileNonempty_cons readLine_shrinks, readLine, Reader.bind_apply,
        takeLine_open unended]
      rfl
  | cons entry rest inductionHypothesis =>
    obtain ⟨byte, more, starts⟩ := List.exists_cons_of_ne_nil (serialize_ne_nil entry)
    have step := readLine_serialize acc entry (writeWall rest ++ tail)
    rw [writeWall_cons, List.append_assoc]
    rw [starts, List.cons_append] at step ⊢
    rw [Reader.whileNonempty_cons readLine_shrinks, step, Outcome.ok_bind, inductionHypothesis]
    simp

/-- The lines of a log are those of its events. -/
theorem lines_writeWall (wall : List WALL) : Text.lines (writeWall wall) = wall.map WALL.serialize :=
  Text.lines_flatMap wall fun entry _ => entry.newline_not_mem_body

/-- An event is one line and reads back from it, and a log cut at its newlines, by the inner
loop of `read_wall` too, reads back event by event. -/
theorem session_log_codec :
    (∀ entry : WALL, ∃ text, entry.serialize = text ++ [0x0A] ∧ 0x0A ∉ text) ∧
    (∀ entry : WALL, WALL.deserialize entry.serialize = .ok entry) ∧
    (∀ wall : List WALL,
      (Text.lines (writeWall wall)).map WALL.deserialize = wall.map Outcome.ok) ∧
    ∀ wall : List WALL, Reader.whileNonempty readLine [] (writeWall wall) = .ok (wall, []) := by
  refine ⟨?_, WALL.deserialize_serialize, ?_, ?_⟩
  · intro entry
    exact ⟨entry.body, rfl, entry.newline_not_mem_body⟩
  · intro wall
    rw [lines_writeWall, List.map_map]
    exact List.map_congr_left fun entry _ => entry.deserialize_serialize
  · intro wall
    have whole := readLines [] wall (List.not_mem_nil (a := 0x0A))
    rwa [List.append_nil, if_pos rfl, List.nil_append] at whole

end Lines

section Pieces

/-- A piece off the front of a log is whole lines and an unended rest. -/
theorem cut {wall : List WALL} {piece rest : Bytes} (split : writeWall wall = piece ++ rest) :
    ∃ front back tail, wall = front ++ back ∧ piece = writeWall front ++ tail ∧ 0x0A ∉ tail := by
  induction wall generalizing piece with
  | nil =>
    have empty : piece = [] := (List.append_eq_nil_iff.mp split.symm).1
    exact ⟨[], [], [], rfl, by simp [empty, writeWall], List.not_mem_nil⟩
  | cons entry wall inductionHypothesis =>
    rw [writeWall_cons] at split
    by_cases inside : piece.length < entry.serialize.length
    · -- The piece ends before the newline of this line.
      refine ⟨[], entry :: wall, piece, rfl, by simp [writeWall], fun member => ?_⟩
      have short : piece.length ≤ entry.body.length := by
        simp only [WALL.serialize, List.length_append, List.length_singleton] at inside
        omega
      have taken : piece = entry.body.take piece.length := by
        have whole := congrArg (List.take piece.length) split
        rw [List.take_left, List.take_append_of_le_length (Nat.le_of_lt inside), WALL.serialize,
          List.take_append_of_le_length short] at whole
        exact whole.symm
      rw [taken] at member
      exact entry.newline_not_mem_body (List.mem_of_mem_take member)
    · obtain ⟨later, rfl⟩ : ∃ later, piece = entry.serialize ++ later := by
        have known : entry.serialize <+: piece :=
          List.prefix_of_prefix_length_le ⟨_, split⟩ ⟨rest, rfl⟩ (Nat.not_lt.mp inside)
        obtain ⟨later, same⟩ := known
        exact ⟨later, same.symm⟩
      rw [List.append_assoc, List.append_cancel_left_eq] at split
      obtain ⟨front, back, tail, rfl, rfl, unended⟩ := inductionHypothesis split
      exact ⟨entry :: front, back, tail, rfl, by simp [writeWall_cons], unended⟩

theorem writeWall_getLast {wall : List WALL} (nonempty : wall ≠ []) :
    (writeWall wall).getLast? = some 0x0A := by
  obtain ⟨front, last, rfl⟩ := List.eq_nil_or_concat wall |>.resolve_left nonempty
  rw [List.concat_eq_append, writeWall_append, List.getLast?_append]
  simp [writeWall, WALL.serialize]

/-- The end of a piece is the end of a line exactly when the piece has no unended rest. -/
theorem atLineEnd_iff {wall front back : List WALL} {piece rest tail : Bytes}
    (split : writeWall wall = piece ++ rest) (lines : wall = front ++ back)
    (parts : piece = writeWall front ++ tail) (unended : 0x0A ∉ tail) :
    AtLineEnd wall piece.length ↔ tail = [] := by
  constructor
  · rintro ⟨other, more, same, length⟩
    rw [same, writeWall_append] at split
    obtain ⟨whole, _⟩ := List.append_inj split length
    by_contra open_
    have isLast : piece.getLast? = tail.getLast? := by
      rw [parts, List.getLast?_append]
      obtain ⟨last, found⟩ := Option.isSome_iff_exists.mp (List.getLast?_isSome.mpr open_)
      simp [found]
    have nonempty : other ≠ [] := by
      rintro rfl
      rw [← whole] at parts
      exact open_ (List.append_eq_nil_iff.mp parts.symm).2
    rw [← whole, writeWall_getLast nonempty] at isLast
    exact unended (List.mem_of_getLast? isLast.symm)
  · rintro rfl
    exact ⟨front, back, lines, by simp [parts]⟩

/-- Behind whole lines that fill the buffer, the same condition is left for the rest. -/
theorem aligned_append {front back : List WALL}
    (full : (writeWall front).length = wallBuffer) : Aligned (front ++ back) ↔ Aligned back := by
  have next : ∀ k, wallBuffer * (k + 1) = wallBuffer * k + wallBuffer := Nat.mul_succ wallBuffer
  constructor
  · intro aligned k inside
    have later : wallBuffer * (k + 1) < (writeWall (front ++ back)).length := by
      rw [writeWall_append, List.length_append, next]
      omega
    have piece := List.take_append_drop (wallBuffer * k) (writeWall back)
    obtain ⟨lines, more, tail, rfl, parts, unended⟩ := cut piece.symm
    have length : ((writeWall (lines ++ more)).take (wallBuffer * k)).length = wallBuffer * k :=
      List.length_take_of_le (Nat.le_of_lt inside)
    -- The same piece behind `front` ends where the alignment says a line ends.
    have whole : writeWall (front ++ (lines ++ more)) =
        (writeWall front ++ (writeWall (lines ++ more)).take (wallBuffer * k)) ++
          (writeWall (lines ++ more)).drop (wallBuffer * k) := by
      rw [writeWall_append, List.append_assoc, piece]
    have atEnd := aligned (k + 1) later
    have wholeLength : (writeWall front ++
        (writeWall (lines ++ more)).take (wallBuffer * k)).length = wallBuffer * (k + 1) := by
      rw [List.length_append, length, full, next]
      omega
    rw [← wholeLength, atLineEnd_iff whole (List.append_assoc front lines more).symm
      (by rw [parts, writeWall_append, List.append_assoc]) unended] at atEnd
    refine ⟨lines, more, rfl, ?_⟩
    rw [atEnd, List.append_nil] at parts
    rw [← parts, length]
  · intro aligned k inside
    cases k with
    | zero => exact ⟨[], front ++ back, rfl, rfl⟩
    | succ k =>
      have earlier : wallBuffer * k < (writeWall back).length := by
        rw [writeWall_append, List.length_append, next] at inside
        omega
      obtain ⟨lines, more, rfl, length⟩ := aligned k earlier
      refine ⟨front ++ lines, more, by simp, ?_⟩
      rw [writeWall_append, List.length_append, full, length, next]
      omega

/-- A log that fits in the buffer is aligned. -/
theorem aligned_of_short {wall : List WALL} (short : (writeWall wall).length ≤ wallBuffer) :
    Aligned wall := by
  intro k inside
  have first : k = 0 := by
    by_contra positive
    have := Nat.mul_le_mul_left wallBuffer (Nat.pos_of_ne_zero positive)
    omega
  exact ⟨[], wall, rfl, by simp [first, writeWall]⟩

/-- Whole lines that are the first piece of a log leave the condition to the rest. -/
theorem aligned_of_piece {front back : List WALL}
    (piece : (writeWall (front ++ back)).take wallBuffer = writeWall front) :
    Aligned (front ++ back) ↔ Aligned back := by
  by_cases long : wallBuffer < (writeWall (front ++ back)).length
  · refine aligned_append ?_
    rw [← piece, List.length_take_of_le (Nat.le_of_lt long)]
  · have whole := Nat.not_lt.mp long
    have rest : (writeWall back).length ≤ wallBuffer := by
      rw [writeWall_append, List.length_append] at whole
      omega
    exact ⟨fun _ => aligned_of_short rest, fun _ => aligned_of_short whole⟩

/-- A piece that ends inside a line is not the end of an aligned log. -/
theorem not_aligned_of_open {wall front back : List WALL} {tail : Bytes}
    (lines : wall = front ++ back)
    (parts : (writeWall wall).take wallBuffer = writeWall front ++ tail) (unended : 0x0A ∉ tail)
    (open_ : tail ≠ []) : ¬ Aligned wall := by
  intro aligned
  apply open_
  have piece := (List.take_append_drop wallBuffer (writeWall wall)).symm
  apply (atLineEnd_iff piece lines parts unended).mp
  by_cases long : wallBuffer < (writeWall wall).length
  · rw [List.length_take_of_le (Nat.le_of_lt long)]
    simpa using aligned 1 (by omega)
  · rw [List.take_of_length_le (Nat.not_lt.mp long)]
    exact ⟨wall, [], by simp, rfl⟩

end Pieces

section Chunks

theorem readChunk_apply (acc : List WALL) (file : Bytes) :
    readChunk acc file =
      Reader.whileNonempty readLine acc (file.take wallBuffer) >>= fun result =>
        .ok (result.1, file.drop wallBuffer) := by
  simp only [readChunk, Reader.bind_apply, Reader.remaining_apply, Outcome.ok_bind, Reader.splitTo,
    Nat.min_le_right, if_true, Reader.within_apply]
  by_cases short : file.length ≤ wallBuffer
  · rw [Nat.min_eq_right short, List.take_of_length_le short, List.take_length,
      List.drop_of_length_le short, List.drop_length]
  · rw [Nat.min_eq_left (Nat.le_of_not_le short)]

theorem readChunk_shrinks : Reader.Shrinks readChunk := by
  intro acc file next rest nonempty result
  rw [readChunk_apply] at result
  obtain ⟨_, _, same⟩ := Outcome.bind_eq_ok.mp result
  simp only [Outcome.ok.injEq, Prod.mk.injEq] at same
  rw [← same.2, List.length_drop]
  have some := List.length_pos_iff.mpr nonempty
  have bufferSize : wallBuffer = 512 := rfl
  omega

/-- The outer loop returns all lines of an aligned log and aborts on any other. -/
theorem readChunks (acc wall : List WALL) :
    (Aligned wall →
      Reader.whileNonempty readChunk acc (writeWall wall) = .ok (acc ++ wall, [])) ∧
    (¬ Aligned wall → Reader.whileNonempty readChunk acc (writeWall wall) = .panic) := by
  have bufferSize : wallBuffer = 512 := rfl
  induction size : (writeWall wall).length using Nat.strongRecOn generalizing acc wall with
  | ind bound inductionHypothesis =>
    rcases wall with _ | ⟨entry, others⟩
    · refine ⟨fun _ => by simp [writeWall], fun unaligned => absurd ?_ unaligned⟩
      intro k inside
      simp [writeWall] at inside
    · generalize isWall : entry :: others = wall at *
      have nonempty : wall ≠ [] := by simp [← isWall]
      obtain ⟨byte, more, starts⟩ : ∃ byte more, writeWall wall = byte :: more := by
        apply List.exists_cons_of_ne_nil
        simp [← isWall, writeWall_cons, serialize_ne_nil]
      have piece := (List.take_append_drop wallBuffer (writeWall wall)).symm
      obtain ⟨front, back, tail, lines, parts, unended⟩ := cut piece
      have turn : Reader.whileNonempty readChunk acc (writeWall wall) =
          readChunk acc (writeWall wall) >>= fun result =>
            Reader.whileNonempty readChunk result.1 result.2 := by
        rw [starts, Reader.whileNonempty_cons readChunk_shrinks]
      rw [turn, readChunk_apply, parts, readLines acc front unended]
      by_cases closed : tail = []
      · -- The piece is whole lines, and the loop goes on behind them.
        subst closed
        rw [List.append_nil] at parts
        have rest : (writeWall wall).drop wallBuffer = writeWall back := by
          have both : writeWall front ++ (writeWall wall).drop wallBuffer =
              writeWall front ++ writeWall back := by
            have whole := piece
            rw [parts] at whole
            rw [← whole, lines, writeWall_append]
          exact List.append_cancel_left both
        have smaller : (writeWall back).length < bound := by
          rw [← rest, List.length_drop, ← size, starts, List.length_cons]
          omega
        have same : Aligned wall ↔ Aligned back := by
          rw [lines] at parts ⊢
          exact aligned_of_piece parts
        obtain ⟨reads, aborts⟩ := inductionHypothesis _ smaller (acc ++ front) back rfl
        rw [if_pos rfl, Outcome.ok_bind, Outcome.ok_bind, rest, same]
        refine ⟨fun aligned => ?_, aborts⟩
        rw [reads aligned, lines, List.append_assoc]
      · rw [if_neg closed]
        exact ⟨fun aligned => absurd aligned (not_aligned_of_open lines parts unended closed),
          fun _ => rfl⟩

theorem readWall_of_aligned {wall : List WALL} (aligned : Aligned wall) :
    readWall (writeWall wall) = .ok wall := by
  rw [readWall, (readChunks [] wall).1 aligned]
  rfl

theorem readWall_of_not_aligned {wall : List WALL} (unaligned : ¬ Aligned wall) :
    readWall (writeWall wall) = .panic := by
  rw [readWall, (readChunks [] wall).2 unaligned]
  rfl

end Chunks

/-- What `ClientStore::restore` makes of the last event of a log at the clock
reading `now`. -/
def decideRestore (last : EventType) (now : Nat) : Outcome IoError Unit :=
  match last with
  | .clientRestored => .err ⟨.addrInUse, "session already restored"⟩
  | .clientDisconnected u | .disconnectByServer u =>
      if now ≥ u.toNat then .err ⟨.timedOut, "session expired"⟩ else .ok ()
  | .clientCreated => .err ⟨.other, "session maybe still online"⟩

/-- The session part of `ClientStore::restore`, up to its own log entry. An empty log
has no last event to index. -/
def restoreSession (file : Bytes) (now : Nat) : Outcome IoError Unit := do
  let wall ← readWall file
  match wall.getLast? with
  | some last => decideRestore last.value now
  | none => .panic

/-- A restore decides on the last event of an aligned log. -/
theorem restoreSession_of_aligned {wall : List WALL} (aligned : Aligned wall) (nonempty : wall ≠ [])
    (now : Nat) :
    restoreSession (writeWall wall) now = decideRestore (wall.getLast nonempty).value now := by
  rw [restoreSession, readWall_of_aligned aligned, Outcome.ok_bind,
    List.getLast?_eq_some_getLast nonempty]

/-- A log that is not aligned aborts a restore. -/
theorem restoreSession_of_not_aligned {wall : List WALL} (unaligned : ¬ Aligned wall) (now : Nat) :
    restoreSession (writeWall wall) now = .panic := by
  rw [restoreSession, readWall_of_not_aligned unaligned]
  rfl

/-- A log file after calls of `write_wall`, the oldest first. -/
def sessionLog (calls : List (List WALL)) : Bytes :=
  calls.foldl (fun file wall => file ++ writeWall wall) []

theorem sessionLog_eq (calls : List (List WALL)) : sessionLog calls = writeWall calls.flatten := by
  have run : ∀ file : Bytes, calls.foldl (fun file wall => file ++ writeWall wall) file =
      file ++ writeWall calls.flatten := by
    induction calls with
    | nil => simp [writeWall]
    | cons wall rest inductionHypothesis =>
      intro file
      rw [List.foldl_cons, inductionHypothesis, List.flatten_cons, writeWall_append,
        List.append_assoc]
  simpa [sessionLog] using run []

/-- A session log reads back whole, and a restore decides on its last event, exactly
when every multiple of the buffer's length below the log's length ends a line. -/
theorem wall_reads_back_iff (calls : List (List WALL)) (nonempty : calls.flatten ≠ []) :
    (readWall (sessionLog calls) = .ok calls.flatten ∧
      ∀ now, restoreSession (sessionLog calls) now =
        decideRestore (calls.flatten.getLast nonempty).value now) ↔
    Aligned calls.flatten := by
  rw [sessionLog_eq]
  constructor
  · rintro ⟨whole, _⟩
    by_contra unaligned
    rw [readWall_of_not_aligned unaligned] at whole
    cases whole
  · intro aligned
    exact ⟨readWall_of_aligned aligned, restoreSession_of_aligned aligned nonempty⟩

/-- A session that was created and disconnected once. -/
theorem wall_reads_back_iff_short :
    let calls : List (List WALL) :=
      [[⟨7, .clientCreated⟩], [⟨9, .clientDisconnected 60⟩]]
    readWall (sessionLog calls) = .ok calls.flatten ∧ restoreSession (sessionLog calls) 30 = .ok () := by
  intro calls
  have aligned : Aligned calls.flatten := aligned_of_short (by decide)
  obtain ⟨whole, decides⟩ := (wall_reads_back_iff calls (by decide)).mpr aligned
  exact ⟨whole, decides 30⟩

/-- A session created once and then disconnected and restored eight times. Its last
disconnection is written across the end of the first piece, and the log can no longer
be read. -/
theorem wall_crossing_aborts :
    let calls : List (List WALL) := [⟨1700000000, .clientCreated⟩] ::
      (List.replicate 8 [[⟨1700000000, .clientDisconnected 1700000090⟩],
        [⟨1700000000, .clientRestored⟩]]).flatten
    readWall (sessionLog calls) = .panic ∧ readWall (sessionLog calls) ≠ .ok calls.flatten := by
  intro calls
  have lengths : (List.range 18).all
      (fun n => (writeWall (calls.flatten.take n)).length != 512) = true := by decide +kernel
  have unaligned : ¬ Aligned calls.flatten := by
    intro aligned
    have long : (writeWall calls.flatten).length = 561 := by decide +kernel
    have bufferSize : wallBuffer = 512 := rfl
    obtain ⟨front, back, lines, length⟩ := aligned 1 (by omega)
    have count : front.length + back.length = 17 := by
      rw [← List.length_append, ← lines]
      rfl
    have isFront : calls.flatten.take front.length = front := by simp [lines]
    have apart := List.all_eq_true.mp lengths front.length (List.mem_range.mpr (by omega))
    rw [isFront, length] at apart
    cases apart
  have reading : readWall (sessionLog calls) = .panic := by
    rw [sessionLog_eq, readWall_of_not_aligned unaligned]
  refine ⟨reading, ?_⟩
  rw [reading]
  exact nofun

end Sipusu.MessageBroker
