import FlexSynth.Proofs.Text.Position
import Mathlib.Order.Bounds.Basic
import Mathlib.Order.Nat

/-!
# The position at which a text is found

A search finds an offset and gives its position, and whoever is told the position counts lines
and characters to come to the text. `OccursAt` says where a text stands, by what is before it and
behind it, and `Position.rest` is what is read from a position on.

Offsets and positions correspond. A line starts behind everything on the lines before it, so two
positions in a text have different offsets (`offset_inj`), and the position of an offset is the
only one that leads back to it (`ofOffset_eq_iff`). What is read there is what follows the offset
(`rest_ofOffset`). So a search gives the one position whose offset is that of the first occurrence,
and the text that was looked for is read there (`first_occurrence_located`).
-/

namespace FlexSynth.Text

/-! ## The start of a line -/

/-- The number of characters before a line. -/
def lineStart (source : List Char) (line : Nat) : Nat :=
  (((lines source).take line).flatMap (· ++ ['\n'])).length

theorem lineStart_mono {source : List Char} {line line' : Nat} (h : line ≤ line') :
    lineStart source line ≤ lineStart source line' := by
  obtain ⟨more, hmore⟩ := List.take_prefix_take_left h
  unfold lineStart
  rw [← hmore, List.flatMap_append, List.length_append]
  exact Nat.le_add_right _ _

/-- Counted with a newline each, the lines are one character longer than the text. -/
theorem lineStart_le (source : List Char) (line : Nat) :
    lineStart source line ≤ source.length + 1 := by
  have hlength := congrArg List.length (flatMap_lines source)
  rw [← List.take_append_drop line (lines source), List.flatMap_append, List.length_append,
    List.length_append, List.length_singleton] at hlength
  exact Nat.le.intro hlength

/-! ## Offsets of positions -/

section

variable {source : List Char} {p q : Position} {offset : Nat}

theorem Position.Within.offset_lt_lineStart (h : p.Within source) :
    p.offset source < lineStart source (p.line + 1) := by
  obtain ⟨line, hline, hcharacter⟩ := h
  unfold Position.offset lineStart
  rw [List.take_add_one, hline, List.flatMap_append, List.length_append, Option.toList_some,
    List.flatMap_singleton, List.length_append, List.length_singleton]
  omega

theorem Position.Within.offset_le (h : p.Within source) : p.offset source ≤ source.length :=
  Nat.le_of_lt_succ (Nat.lt_of_lt_of_le h.offset_lt_lineStart (lineStart_le source _))

/-- What is on an earlier line has the smaller offset. -/
theorem Position.Within.offset_lt (h : p.Within source) (hline : p.line < q.line) :
    p.offset source < q.offset source :=
  calc
    p.offset source < lineStart source (p.line + 1) := h.offset_lt_lineStart
    _ ≤ lineStart source q.line := lineStart_mono hline
    _ ≤ q.offset source := Nat.le_add_right _ _

theorem offset_inj (hp : p.Within source) (hq : q.Within source) :
    p.offset source = q.offset source ↔ p = q := by
  constructor
  · intro hsame
    have hline : p.line = q.line :=
      Nat.le_antisymm (Nat.le_of_not_lt fun hlt => Nat.ne_of_lt (hq.offset_lt hlt) hsame.symm)
        (Nat.le_of_not_lt fun hlt => Nat.ne_of_lt (hp.offset_lt hlt) hsame)
    unfold Position.offset at hsame
    rw [hline] at hsame
    exact congrArg₂ Position.mk hline (Nat.add_left_cancel hsame)
  · rintro rfl
    rfl

/-- The offset of a position leads back to it. -/
theorem Position.Within.ofOffset_offset (h : p.Within source) :
    Position.ofOffset source (p.offset source) = p :=
  (offset_inj (within_ofOffset h.offset_le) h).mp (offset_ofOffset h.offset_le)

/-- An offset has one position. -/
theorem ofOffset_eq_iff (h : offset ≤ source.length) :
    Position.ofOffset source offset = p ↔ p.Within source ∧ p.offset source = offset := by
  constructor
  · rintro rfl
    exact ⟨within_ofOffset h, offset_ofOffset h⟩
  · rintro ⟨hp, rfl⟩
    exact hp.ofOffset_offset

end

/-! ## What is read at a position -/

/-- The text from a position on: what follows on its line, and the lines after it. -/
def Position.rest (source : List Char) (p : Position) : List Char :=
  (['\n'].intercalate ((lines source).drop p.line)).drop p.character

/-- Each line before the last ones is followed by its newline. -/
theorem intercalate_newline_append {after : List (List Char)} (h : after ≠ [])
    (before : List (List Char)) : ['\n'].intercalate (before ++ after) =
      before.flatMap (· ++ ['\n']) ++ ['\n'].intercalate after := by
  induction before with
  | nil => rfl
  | cons line before ih =>
    rw [List.cons_append, List.intercalate_cons_of_ne_nil (List.append_ne_nil_of_right_ne_nil _ h),
      ih, List.flatMap_cons]
    exact (List.append_assoc (line ++ ['\n']) _ _).symm

theorem Position.Within.rest_eq {source : List Char} {p : Position} (h : p.Within source) :
    p.rest source = source.drop (p.offset source) := by
  obtain ⟨line, hline, _⟩ := h
  have hne : (lines source).drop p.line ≠ [] := by
    rw [List.ne_nil_iff_length_pos, List.length_drop]
    exact Nat.sub_pos_of_lt (List.getElem?_eq_some_iff.mp hline).1
  have hsource : ((lines source).take p.line).flatMap (· ++ ['\n']) ++
      ['\n'].intercalate ((lines source).drop p.line) = source := by
    rw [← intercalate_newline_append hne, List.take_append_drop]
    exact List.intercalate_splitOn '\n'
  have hdrop : (((lines source).take p.line).flatMap (· ++ ['\n']) ++
      ['\n'].intercalate ((lines source).drop p.line)).drop (p.offset source) = p.rest source :=
    List.drop_length_add_append p.character
  rw [← hdrop, hsource]

theorem rest_ofOffset {source : List Char} {offset : Nat} (h : offset ≤ source.length) :
    (Position.ofOffset source offset).rest source = source.drop offset := by
  rw [(within_ofOffset h).rest_eq, offset_ofOffset h]

/-! ## Occurrences -/

/-- The text stands in the source behind so many characters. -/
def OccursAt (source needle : List Char) (offset : Nat) : Prop :=
  ∃ before after, source = before ++ needle ++ after ∧ before.length = offset

/-- The offsets, from a start on, at which the text stands. -/
def occurrences (source needle : List Char) (start : Nat) : Set Nat :=
  {offset | start ≤ offset ∧ OccursAt source needle offset}

section

variable {source needle : List Char} {start offset : Nat}

theorem occursAt_iff :
    OccursAt source needle offset ↔ offset ≤ source.length ∧ needle <+: source.drop offset := by
  constructor
  · rintro ⟨before, after, rfl, rfl⟩
    rw [List.append_assoc, List.drop_left, List.length_append]
    exact ⟨Nat.le_add_right _ _, List.prefix_append _ _⟩
  · rintro ⟨hle, after, hafter⟩
    refine ⟨source.take offset, after, ?_, List.length_take_of_le hle⟩
    rw [List.append_assoc, hafter, List.take_append_drop]

theorem find?_eq_some_iff_isLeast :
    find? source needle start = some offset ↔ IsLeast (occurrences source needle start) offset := by
  rw [find?_eq_some_iff]
  constructor
  · rintro ⟨hstart, hle, hstands, hleast⟩
    refine ⟨⟨hstart, occursAt_iff.mpr ⟨hle, hstands⟩⟩, fun p ⟨hp, hoccurs⟩ => ?_⟩
    exact Nat.le_of_not_lt fun hlt => hleast p hp hlt (occursAt_iff.mp hoccurs).2
  · rintro ⟨⟨hstart, hoccurs⟩, hleast⟩
    obtain ⟨hle, hstands⟩ := occursAt_iff.mp hoccurs
    refine ⟨hstart, hle, hstands, fun p hp hlt hstands' => ?_⟩
    have hp_le : p ≤ source.length := Nat.le_trans (Nat.le_of_lt hlt) hle
    exact Nat.not_le_of_lt hlt (hleast ⟨hp, occursAt_iff.mpr ⟨hp_le, hstands'⟩⟩)

theorem exists_find?_of_nonempty (h : (occurrences source needle start).Nonempty) :
    ∃ offset, find? source needle start = some offset := by
  classical
  exact ⟨Nat.find h, find?_eq_some_iff_isLeast.mpr (Nat.isLeast_find h)⟩

theorem find?_eq_none_iff :
    find? source needle start = none ↔ occurrences source needle start = ∅ := by
  constructor
  · intro hnone
    refine Set.not_nonempty_iff_eq_empty.mp fun hoccurs => ?_
    obtain ⟨offset, hfind⟩ := exists_find?_of_nonempty hoccurs
    rw [hnone] at hfind
    cases hfind
  · intro hempty
    refine Option.eq_none_iff_forall_ne_some.mpr fun offset hfind => ?_
    obtain ⟨hoccurs, _⟩ := find?_eq_some_iff_isLeast.mp hfind
    rw [hempty] at hoccurs
    exact hoccurs

/-- A search gives the position of the offset that it finds, or the start. -/
theorem positionOf_eq (source needle : List Char) (start : Nat) : positionOf source needle start =
    ((find? source needle start).map (Position.ofOffset source)).getD .start := by
  have hclamp : clampStart source.length start = start := rfl
  unfold positionOf
  rw [hclamp]
  cases find? source needle start with
  | none => rfl
  | some offset => rfl

end

/-! ## Found positions -/

/-- If a text occurs at or after the start, a search gives the one position within the source that
leads to its least occurrence, and the text is read there. If it does not, the search gives the
start of the source. -/
theorem first_occurrence_located (source needle : List Char) (start : Nat) :
    ((occurrences source needle start).Nonempty →
      (∀ p, positionOf source needle start = p ↔
        p.Within source ∧ IsLeast (occurrences source needle start) (p.offset source)) ∧
      needle <+: (positionOf source needle start).rest source) ∧
    (occurrences source needle start = ∅ → positionOf source needle start = ⟨0, 0⟩) := by
  rw [positionOf_eq]
  refine ⟨fun hoccurs => ?occurs, fun hempty => ?absent⟩
  case occurs =>
    obtain ⟨offset, hfind⟩ := exists_find?_of_nonempty hoccurs
    obtain ⟨_, hle, hstands, _⟩ := find?_eq_some_iff.mp hfind
    have hleast := find?_eq_some_iff_isLeast.mp hfind
    rw [hfind, Option.map_some, Option.getD_some]
    refine ⟨fun p => ?_, ?_⟩
    · rw [ofOffset_eq_iff hle]
      constructor
      · rintro ⟨hp, rfl⟩
        exact ⟨hp, hleast⟩
      · rintro ⟨hp, hp_least⟩
        exact ⟨hp, hp_least.unique hleast⟩
    · rw [rest_ofOffset hle]
      exact hstands
  case absent =>
    rw [find?_eq_none_iff.mpr hempty]
    rfl

/-- A text whose third line is empty. -/
def emptyLined : List Char :=
  "x\nab\n\nab\nc".toList

theorem first_occurrence_located_emptyLined :
    positionOf emptyLined "\nab\nc".toList (1 : Nat) = ⟨2, 0⟩ ∧
      IsLeast (occurrences emptyLined "\nab\nc".toList 1) (Position.offset emptyLined ⟨2, 0⟩) ∧
      "\nab\nc".toList <+: Position.rest emptyLined ⟨2, 0⟩ ∧
      occurrences emptyLined "\nab\nc".toList 6 = ∅ ∧
      positionOf emptyLined "\nab\nc".toList (6 : Nat) = ⟨0, 0⟩ := by
  have hposition : positionOf emptyLined "\nab\nc".toList (1 : Nat) = ⟨2, 0⟩ := by decide
  have hoccurs : (occurrences emptyLined "\nab\nc".toList 1).Nonempty :=
    ⟨5, by decide, "x\nab\n".toList, [], by decide, by decide⟩
  have hempty : occurrences emptyLined "\nab\nc".toList 6 = ∅ := find?_eq_none_iff.mp (by decide)
  obtain ⟨hfound, _⟩ := first_occurrence_located emptyLined "\nab\nc".toList 1
  obtain ⟨_, habsent⟩ := first_occurrence_located emptyLined "\nab\nc".toList 6
  obtain ⟨hunique, hread⟩ := hfound hoccurs
  obtain ⟨_, hleast⟩ := (hunique _).mp hposition
  rw [hposition] at hread
  exact ⟨hposition, hleast, hread, hempty, habsent hempty⟩

-- The empty text is found at the end of a text, but not behind it.
example : positionOf "ab\n".toList [] (3 : Nat) = ⟨1, 0⟩ ∧
    positionOf "ab\n".toList [] (4 : Nat) = ⟨0, 0⟩ := by
  decide

end FlexSynth.Text
