import Mathlib.Data.List.Basic
import Mathlib.Data.Prod.Lex
import YangFormatter.Source
import YangFormatter.Text.Position

/-! # Positions of offsets

A position is another way to write an offset of a source. The line says where to count from
(`Position.lineStarts`), the column says how far (`Position.Marks`), and positions come in the
order of their offsets (`Source.positions_follow_offsets`).
-/

namespace YangFormatter

namespace Position

/-- The offsets where lines start: zero, and each offset just past a line feed. -/
def lineStarts (bytes : List UInt8) : List Nat :=
  0 :: bytes.idxsOf lineFeed 1

/-- A position leads back to an offset: the column is counted from the start of the line, and
no line feed stands between the two. -/
structure Marks (bytes : List UInt8) (offset : Nat) (position : Position) : Prop where
  line_pos : 1 ≤ position.line
  column_pos : 1 ≤ position.column
  recovers : ∃ start, (lineStarts bytes)[position.line - 1]? = some start ∧
    (offset : Int) = start + position.column - 1 ∧ lineFeed ∉ bytes.extract start offset

/-- A position as a pair, so that lines are compared first. -/
def key (position : Position) : Nat ×ₗ Int :=
  toLex (position.line, position.column)

/-! ## The line of an offset -/

theorem bytesBefore_natCast (bytes : List UInt8) (offset : Nat) :
    bytesBefore bytes offset = bytes.take offset := by
  rw [bytesBefore, if_pos (Int.natCast_nonneg offset), Int.toNat_natCast]

/-- A line goes on up to the next line feed. -/
theorem lineStart_append_of_not_mem (first : List UInt8) {last : List UInt8}
    (free : lineFeed ∉ last) : lineStart (first ++ last) = lineStart first := by
  have onLine : ∀ byte ∈ last.reverse, (byte != lineFeed) = true := by
    intro byte member
    rw [bne_iff_ne]
    rintro rfl
    exact free (List.mem_reverse.mp member)
  rw [lineStart, lineStart, List.reverse_append, List.takeWhile_append_of_pos onLine,
    List.length_append, List.length_append, List.length_reverse, Nat.add_comm last.length,
    Nat.add_sub_add_right]

/-- A line starts behind a line feed. -/
theorem lineStart_concat (first : List UInt8) :
    lineStart (first ++ [lineFeed]) = first.length + 1 := by
  simp [lineStart]

theorem lineStart_le_length (bytes : List UInt8) : lineStart bytes ≤ bytes.length :=
  Nat.sub_le _ _

/-- What stands before the last line is nothing, or ends in a line feed. -/
theorem exists_lastLine (bytes : List UInt8) :
    ∃ earlier last, bytes = earlier ++ last ∧ lineFeed ∉ last ∧ lineStart bytes = earlier.length ∧
      (earlier = [] ∨ ∃ lines, earlier = lines ++ [lineFeed]) := by
  by_cases feeds : lineFeed ∈ bytes
  · obtain ⟨last, lines, split, free⟩ :=
      List.eq_append_cons_of_mem (List.mem_reverse.mpr feeds)
    have whole : bytes = lines.reverse ++ [lineFeed] ++ last.reverse := by
      rw [← List.reverse_reverse bytes, split]
      simp
    have onLine : lineFeed ∉ last.reverse := fun member => free (List.mem_reverse.mp member)
    refine ⟨_, last.reverse, whole, onLine, ?_, .inr ⟨_, rfl⟩⟩
    rw [whole, lineStart_append_of_not_mem _ onLine, lineStart_concat, List.length_append,
      List.length_singleton]
  · exact ⟨[], bytes, rfl, feeds, lineStart_append_of_not_mem [] feeds, .inl rfl⟩

/-- There is no line feed on the last line. -/
theorem not_mem_drop_lineStart (bytes : List UInt8) :
    lineFeed ∉ bytes.drop (lineStart bytes) := by
  obtain ⟨earlier, last, whole, free, start, _⟩ := exists_lastLine bytes
  rwa [start, whole, List.drop_left]

/-- The line feeds before an offset count the lines that start before its own line. -/
theorem getElem?_lineStarts (before after : List UInt8) :
    (lineStarts (before ++ after))[before.count lineFeed]? = some (lineStart before) := by
  obtain ⟨earlier, last, whole, free, start, rfl | ⟨lines, rfl⟩⟩ := exists_lastLine before
  · rw [start, whole, List.nil_append, List.count_eq_zero_of_not_mem free]
    rfl
  · have split : before ++ after = lines ++ lineFeed :: (last ++ after) := by
      rw [whole]
      simp
    have feeds : before.count lineFeed = lines.count lineFeed + 1 := by
      rw [whole, List.count_append, List.count_append, List.count_singleton_self,
        List.count_eq_zero_of_not_mem free, Nat.add_zero]
    rw [start, split, feeds, lineStarts, List.getElem?_cons_succ, List.idxsOf_append,
      List.getElem?_append_right List.length_idxsOf.le, List.length_idxsOf, Nat.sub_self,
      List.idxsOf_cons, if_pos (beq_self_eq_true lineFeed), List.getElem?_cons_zero,
      List.length_append, List.length_singleton, Nat.add_comm]

/-- The position of an offset leads back to it. -/
theorem marks_ofOffset {bytes : List UInt8} {offset : Nat} (inside : offset ≤ bytes.length) :
    Marks bytes offset (ofOffset bytes offset) := by
  have reached := lineStart_le_length (bytes.take offset)
  have starts := getElem?_lineStarts (bytes.take offset) (bytes.drop offset)
  have free := not_mem_drop_lineStart (bytes.take offset)
  rw [List.length_take_of_le inside] at reached
  rw [List.take_append_drop] at starts
  rw [List.drop_take, ← List.extract_eq_take_drop] at free
  rw [ofOffset, bytesBefore_natCast]
  refine ⟨Nat.succ_pos _, ?_, _, starts, ?_, free⟩
  · dsimp only
    omega
  · dsimp only
    omega

/-! ## The order of positions -/

/-- Of two offsets the first is on an earlier line, or further left on the same line. -/
theorem key_ofOffset_lt (bytes : List UInt8) {first second : Nat} (before : first < second) :
    (ofOffset bytes first).key < (ofOffset bytes second).key := by
  have split : bytes.take second = bytes.take first ++ (bytes.take second).drop first := by
    conv_lhs => rw [← List.take_append_drop first (bytes.take second)]
    rw [List.take_take, Nat.min_eq_left before.le]
  rw [key, key, Prod.Lex.toLex_lt_toLex, ofOffset, ofOffset, bytesBefore_natCast,
    bytesBefore_natCast]
  generalize (bytes.take second).drop first = between at split
  rw [split, List.count_append]
  by_cases feeds : lineFeed ∈ between
  · left
    have more := List.count_pos_iff.mpr feeds
    dsimp only
    omega
  · right
    rw [List.count_eq_zero_of_not_mem feeds, lineStart_append_of_not_mem _ feeds]
    dsimp only
    omega

end Position

open Position

/-- The positions of a source are its offsets in another form: each leads back to its offset,
and they are in the same order. -/
theorem Source.positions_follow_offsets (source : Source) :
    (∀ offset : Nat, offset ≤ source.toBytes.length →
      Marks source.toBytes offset (ofOffset source.toBytes offset)) ∧
    ∀ first second : Nat, first < second →
      (ofOffset source.toBytes first).key < (ofOffset source.toBytes second).key :=
  ⟨fun _ inside => marks_ofOffset inside, fun _ _ before => key_ofOffset_lt _ before⟩

/-- Offsets inside a character of two bytes, and at the start of the line behind it. -/
theorem Source.positions_follow_offsets_twoBytes :
    let source := Source.text ['é', '\n', 'b']
    Marks source.toBytes 1 ⟨1, 2⟩ ∧ Marks source.toBytes 3 ⟨2, 1⟩ ∧
      (Position.mk 1 2).key < (Position.mk 2 1).key := by
  intro source
  obtain ⟨marks, ordered⟩ := source.positions_follow_offsets
  exact ⟨marks 1 (by decide), marks 3 (by decide), ordered 1 3 (by decide)⟩

end YangFormatter
