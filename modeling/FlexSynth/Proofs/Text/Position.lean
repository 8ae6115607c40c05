import FlexSynth.Text.Position
import Mathlib.Data.List.Basic
import Mathlib.Data.Nat.Find

/-!
# Offsets, lines and searches

`Position.offset` finds its way back from a position to an offset along the lines of the text:
it counts the characters of the lines before the position, with their newlines. It undoes
`Position.ofOffset` for every offset of the text (`offset_ofOffset`), so different offsets have
different positions, and the position of an offset lies in its line or just behind it
(`within_ofOffset`).

What decides the position of an offset is the last newline before it. So the proofs cut the text
before the offset there (`exists_lastLine`).

A search finds the least offset at which the text stands, if there is one (`find?_eq_some_iff`).
A search from the front is a recursion, and `firstAt_cons` says what one step of it decides.
-/

namespace FlexSynth.Text

/-! ## Lines -/

/-- The lines of a text, without the newlines between them. -/
def lines (source : List Char) : List (List Char) :=
  source.splitOn '\n'

theorem lines_append_newline (before after : List Char) :
    lines (before ++ '\n' :: after) = lines before ++ lines after :=
  List.splitOn_append_cons_self before after

theorem lines_of_not_mem {cs : List Char} (h : '\n' ∉ cs) : lines cs = [cs] :=
  List.splitOn_eq_singleton h

/-- A text that holds a newline, cut at the last one. -/
theorem exists_lastLine (cs : List Char) :
    '\n' ∉ cs ∨ ∃ before last, cs = before ++ '\n' :: last ∧ '\n' ∉ last := by
  by_cases h : '\n' ∈ cs
  · obtain ⟨last, before, hcs, hlast⟩ := List.eq_append_cons_of_mem (List.mem_reverse.mpr h)
    have hreverse := congrArg List.reverse hcs
    rw [List.reverse_reverse] at hreverse
    exact .inr ⟨before.reverse, last.reverse, by simpa using hreverse, by simpa using hlast⟩
  · exact .inl h

theorem exists_lines_append {line : List Char} (h : '\n' ∉ line) (after : List Char) :
    ∃ more rest, lines (line ++ after) = (line ++ more) :: rest := by
  by_cases hafter : '\n' ∈ after
  · obtain ⟨more, rest, rfl, hmore⟩ := List.eq_append_cons_of_mem hafter
    refine ⟨more, lines rest, ?_⟩
    rw [← List.append_assoc, lines_append_newline, lines_of_not_mem (by simp [h, hmore])]
    rfl
  · exact ⟨after, [], lines_of_not_mem (by simp [h, hafter])⟩

theorem lines_newline (cs : List Char) : lines ('\n' :: cs) = [] :: lines cs :=
  lines_append_newline [] cs

/-- A character that is no newline goes to the front of the first line. -/
theorem exists_lines_cons {c : Char} (h : c ≠ '\n') (cs : List Char) :
    ∃ first rest, lines cs = first :: rest ∧ lines (c :: cs) = (c :: first) :: rest := by
  obtain ⟨first, rest, hlines⟩ := exists_lines_append List.not_mem_nil cs
  refine ⟨first, rest, hlines, ?_⟩
  unfold lines at hlines ⊢
  rw [List.splitOn_cons_eq_if_modifyHead, if_neg (by simpa using h)]
  exact congrArg _ hlines

theorem length_lines (cs : List Char) : (lines cs).length = cs.count '\n' + 1 := by
  induction cs with
  | nil => rfl
  | cons c cs ih =>
    by_cases hc : c = '\n'
    · rw [hc, lines_newline, List.count_cons_self, List.length_cons, ih]
    · obtain ⟨first, rest, hlines, hcons⟩ := exists_lines_cons hc cs
      rw [hlines] at ih
      rw [hcons, List.count_cons_of_ne hc, List.length_cons]
      exact ih

/-- The lines with a newline each are the text with one newline more. -/
theorem flatMap_lines (cs : List Char) : (lines cs).flatMap (· ++ ['\n']) = cs ++ ['\n'] := by
  induction cs with
  | nil => rfl
  | cons c cs ih =>
    by_cases hc : c = '\n'
    · rw [hc, lines_newline, List.flatMap_cons, ih]
      rfl
    · obtain ⟨first, rest, hlines, hcons⟩ := exists_lines_cons hc cs
      rw [hlines, List.flatMap_cons] at ih
      rw [hcons, List.flatMap_cons, List.cons_append, List.cons_append, ih]
      rfl

/-! ## Positions -/

/-- The number of characters before a position. -/
def Position.offset (source : List Char) (p : Position) : Nat :=
  (((lines source).take p.line).flatMap (· ++ ['\n'])).length + p.character

/-- The position is that of a character of a line, or of the end of the line. -/
def Position.Within (source : List Char) (p : Position) : Prop :=
  ∃ line, (lines source)[p.line]? = some line ∧ p.character ≤ line.length

theorem foldl_next_of_not_mem {cs : List Char} (h : '\n' ∉ cs) (p : Position) :
    cs.foldl Position.next p = { p with character := p.character + cs.length } := by
  induction cs generalizing p with
  | nil => rfl
  | cons c rest ih =>
    obtain ⟨hc, hrest⟩ := not_or.mp (mt List.mem_cons.mpr h)
    have hnext : p.next c = ⟨p.line, p.character + 1⟩ := if_neg (Ne.symm hc)
    rw [List.foldl_cons, hnext, ih hrest, List.length_cons]
    simp only [Position.mk.injEq, true_and]
    omega

theorem line_foldl_next (cs : List Char) (p : Position) :
    (cs.foldl Position.next p).line = p.line + cs.count '\n' := by
  induction cs generalizing p with
  | nil => rfl
  | cons c rest ih =>
    rw [List.foldl_cons, ih, List.count_cons]
    unfold Position.next
    by_cases hc : c = '\n'
    · simp [hc]
      omega
    · simp [hc]

theorem foldl_next_lastLine {last : List Char} (h : '\n' ∉ last) (before : List Char) :
    (before ++ '\n' :: last).foldl Position.next .start =
      ⟨before.count '\n' + 1, last.length⟩ := by
  have hline : (before.foldl Position.next .start).line = before.count '\n' :=
    (line_foldl_next before .start).trans (Nat.zero_add _)
  rw [List.foldl_append, List.foldl_cons, foldl_next_of_not_mem h]
  simp only [Position.next, if_true, hline, Nat.zero_add]

section

variable {source : List Char} {offset : Nat}

theorem line_ofOffset (source : List Char) (offset : Nat) :
    (Position.ofOffset source offset).line = (source.take offset).count '\n' :=
  (line_foldl_next _ .start).trans (Nat.zero_add _)

theorem ofOffset_of_not_mem (h : '\n' ∉ source.take offset) (hle : offset ≤ source.length) :
    Position.ofOffset source offset = ⟨0, offset⟩ := by
  unfold Position.ofOffset
  rw [foldl_next_of_not_mem h, List.length_take_of_le hle]
  simp [Position.start]

theorem ofOffset_lastLine {before last : List Char}
    (h : source.take offset = before ++ '\n' :: last) (hlast : '\n' ∉ last) :
    Position.ofOffset source offset = ⟨before.count '\n' + 1, last.length⟩ := by
  unfold Position.ofOffset
  rw [h, foldl_next_lastLine hlast]

/-- The lines before an offset and the rest of its line. -/
theorem exists_line_ofOffset (h : offset ≤ source.length) :
    ∃ line rest, (lines source).drop (Position.ofOffset source offset).line = line :: rest ∧
      (Position.ofOffset source offset).character ≤ line.length ∧
      Position.offset source (.ofOffset source offset) = offset := by
  have hsource := List.take_append_drop offset source
  have hlength := List.length_take_of_le h
  rcases exists_lastLine (source.take offset) with hnone | ⟨before, last, hcut, hlast⟩
  · obtain ⟨more, rest, hlines⟩ := exists_lines_append hnone (source.drop offset)
    rw [hsource] at hlines
    rw [ofOffset_of_not_mem hnone h]
    refine ⟨_, rest, hlines, ?_, ?_⟩
    · rw [List.length_append, hlength]
      exact Nat.le_add_right _ _
    · simp [Position.offset]
  · obtain ⟨more, rest, hlines⟩ := exists_lines_append hlast (source.drop offset)
    have hall : lines source = lines before ++ (last ++ more) :: rest := by
      rw [← hsource, hcut, List.append_assoc, List.cons_append, lines_append_newline, hlines]
    rw [ofOffset_lastLine hcut hlast]
    refine ⟨last ++ more, rest, ?_, ?_, ?_⟩
    · rw [hall, ← length_lines, List.drop_left]
    · rw [List.length_append]
      exact Nat.le_add_right _ _
    · unfold Position.offset
      rw [hall, ← length_lines, List.take_left, flatMap_lines, List.length_append,
        List.length_singleton]
      rw [hcut, List.length_append, List.length_cons] at hlength
      dsimp only
      omega

/-- The position of an offset leads back to it. -/
theorem offset_ofOffset (h : offset ≤ source.length) :
    Position.offset source (.ofOffset source offset) = offset := by
  obtain ⟨_, _, _, _, hoffset⟩ := exists_line_ofOffset h
  exact hoffset

theorem within_ofOffset (h : offset ≤ source.length) :
    (Position.ofOffset source offset).Within source := by
  obtain ⟨line, rest, hlines, hcharacter, _⟩ := exists_line_ofOffset h
  refine ⟨line, ?_, hcharacter⟩
  rw [← List.head?_drop, hlines]
  rfl

theorem ofOffset_inj {offset' : Nat} (h : offset ≤ source.length) (h' : offset' ≤ source.length) :
    Position.ofOffset source offset = .ofOffset source offset' ↔ offset = offset' := by
  constructor
  · intro hsame
    rw [← offset_ofOffset h, hsame, offset_ofOffset h']
  · rintro rfl
    rfl

/-- Within a line, the character counts on. -/
theorem ofOffset_add {count : Nat} (h : '\n' ∉ (source.drop offset).take count)
    (hle : offset + count ≤ source.length) :
    Position.ofOffset source (offset + count) = { Position.ofOffset source offset with
      character := (Position.ofOffset source offset).character + count } := by
  have hlength : ((source.drop offset).take count).length = count := by
    rw [List.length_take_of_le (by rw [List.length_drop]; omega)]
  unfold Position.ofOffset
  rw [List.take_add, List.foldl_append, foldl_next_of_not_mem h, hlength]

end

/-! ## Searches -/

/-- The characters from the offset on have the property, and those from no earlier offset. -/
def FirstAt (P : List Char → Prop) (cs : List Char) (offset : Nat) : Prop :=
  P (cs.drop offset) ∧ ∀ p < offset, ¬P (cs.drop p)

section

variable {P : List Char → Prop} {cs : List Char} {n : Nat}

theorem firstAt_nil : FirstAt P [] n ↔ P [] ∧ n = 0 := by
  unfold FirstAt
  simp only [List.drop_nil]
  constructor
  · rintro ⟨h, hfirst⟩
    exact ⟨h, Nat.eq_zero_of_not_pos fun hn => hfirst 0 hn h⟩
  · rintro ⟨h, rfl⟩
    exact ⟨h, fun p hp => absurd hp (Nat.not_lt_zero p)⟩

/-- The first offset is that of the whole text, or the first one behind its first character. -/
theorem firstAt_cons {c : Char} : FirstAt P (c :: cs) n ↔
    P (c :: cs) ∧ n = 0 ∨ ¬P (c :: cs) ∧ ∃ m, FirstAt P cs m ∧ m + 1 = n := by
  constructor
  · rintro ⟨h, hfirst⟩
    cases n with
    | zero => exact .inl ⟨h, rfl⟩
    | succ m =>
      exact .inr ⟨hfirst 0 (Nat.succ_pos m), m,
        ⟨h, fun p hp => hfirst (p + 1) (Nat.succ_lt_succ hp)⟩, rfl⟩
  · rintro (⟨h, rfl⟩ | ⟨hhere, m, ⟨h, hfirst⟩, rfl⟩)
    · exact ⟨h, fun p hp => absurd hp (Nat.not_lt_zero p)⟩
    · refine ⟨h, fun p hp => ?_⟩
      cases p with
      | zero => exact hhere
      | succ p => exact hfirst p (Nat.lt_of_succ_lt_succ hp)

theorem exists_firstAt (h : P (cs.drop n)) : ∃ first, FirstAt P cs first := by
  classical
  have hex : ∃ n, P (cs.drop n) := ⟨n, h⟩
  exact ⟨Nat.find hex, Nat.find_spec hex, fun p hp => Nat.find_min hex hp⟩

/-- Behind the end there is only what there is at the end already. -/
theorem FirstAt.le_length (h : FirstAt P cs n) : n ≤ cs.length := by
  refine Nat.le_of_not_lt fun hlt => h.2 cs.length hlt ?_
  rw [List.drop_length, ← List.drop_eq_nil_of_le (Nat.le_of_lt hlt)]
  exact h.1

end

theorem firstOccurrence?_eq_some_iff {needle cs : List Char} {n : Nat} :
    firstOccurrence? needle cs = some n ↔ FirstAt (needle <+: ·) cs n := by
  induction cs generalizing n with
  | nil =>
    rw [firstAt_nil, firstOccurrence?, List.prefix_nil]
    split
    · next hempty => simp [List.isEmpty_iff.mp hempty, eq_comm]
    · next hne => simp [mt List.isEmpty_iff.mpr hne]
  | cons c rest ih =>
    rw [firstAt_cons, firstOccurrence?]
    split
    · next hhere => simp [List.isPrefixOf_iff_prefix.mp hhere, eq_comm]
    · next hhere => simp [mt List.isPrefixOf_iff_prefix.mpr hhere, Option.map_eq_some_iff, ih]

/-- A search finds the least offset, at or after its start, at which the text stands. -/
theorem find?_eq_some_iff {source needle : List Char} {start offset : Nat} :
    find? source needle start = some offset ↔
      start ≤ offset ∧ offset ≤ source.length ∧ needle <+: source.drop offset ∧
        ∀ p, start ≤ p → p < offset → ¬needle <+: source.drop p := by
  unfold find?
  split
  · next hstart =>
    simp only [Option.map_eq_some_iff, firstOccurrence?_eq_some_iff]
    constructor
    · rintro ⟨n, hfirst, rfl⟩
      have hle := hfirst.le_length
      rw [List.length_drop] at hle
      obtain ⟨hstands, hleast⟩ := hfirst
      rw [List.drop_drop] at hstands
      refine ⟨Nat.le_add_right _ _, by omega, hstands, fun p hp hlt => ?_⟩
      obtain ⟨m, rfl⟩ := Nat.exists_eq_add_of_le hp
      rw [← List.drop_drop]
      exact hleast m (by omega)
    · rintro ⟨hge, _, hstands, hleast⟩
      obtain ⟨n, rfl⟩ := Nat.exists_eq_add_of_le hge
      refine ⟨n, ⟨?_, fun p hp => ?_⟩, rfl⟩
      · rw [List.drop_drop]
        exact hstands
      · rw [List.drop_drop]
        exact hleast (start + p) (Nat.le_add_right _ _) (by omega)
  · next hstart =>
    constructor
    · rintro ⟨⟩
    · rintro ⟨hge, hle, _⟩
      omega

end FlexSynth.Text
