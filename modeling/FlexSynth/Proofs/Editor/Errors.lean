import FlexSynth.Proofs.Editor
import FlexSynth.Proofs.Json.Faults
import FlexSynth.Proofs.Text.Position

/-!
# Where a text is not JSON

A text that is not JSON is rejected at a line and a column, and both come from one offset of the
text, at which the fault stands (`syntax_errors_located`). The offset may be that of the end, but
never one behind it. So the line is a line of the text, and the column is that of a character of
the line or of its end. An editor counts from zero where a report counts from one, and shows the
same place. A value that breaks the schema has no line and no column, only a place in the
document.

A text with an integer that is not converted is no more rejected than it is loaded, be it JSON or
not, unless a fault comes first.
-/

namespace FlexSynth

open Partial
open Text (lines Position)

/-! ## Lines and columns -/

/-- The line and the column of an offset. The line is one more than the newlines before the
offset. The column is the distance from the last of them or, on the first line, one more than
the offset. -/
structure Marks (source : List Char) (offset line column : Nat) : Prop where
  line_eq : line = 1 + (source.take offset).count '\n'
  first_line : '\n' ∉ source.take offset → column = offset + 1
  later_line : ∀ i < offset, source[i]? = some '\n' →
    (∀ j < offset, i < j → source[j]? ≠ some '\n') → column = offset - i

/-- The offset is one of the text, and the line and the column are its own: they lie in the text
and lead back to it. -/
structure MarksWithin (source : List Char) (offset line column : Nat) : Prop
    extends Marks source offset line column where
  offset_le : offset ≤ source.length
  column_pos : 1 ≤ column
  in_line : ∃ text, (lines source)[line - 1]? = some text ∧ column ≤ text.length + 1
  returns : Position.offset source ⟨line - 1, column - 1⟩ = offset

section

variable {source : List Char} {offset : Nat}

/-- A text up to an offset, cut at a newline that has no other behind it. -/
theorem take_eq_of_last_newline {i : Nat} (hi : i < offset) (hnewline : source[i]? = some '\n')
    (hlast : ∀ j < offset, i < j → source[j]? ≠ some '\n') :
    ∃ before last, source.take offset = before ++ '\n' :: last ∧ '\n' ∉ last ∧
      before.length = i := by
  have hget : (source.take offset)[i]? = some '\n' := by
    rw [List.getElem?_take_of_lt hi]
    exact hnewline
  obtain ⟨hlt, hvalue⟩ := List.getElem?_eq_some_iff.mp hget
  refine ⟨(source.take offset).take i, (source.take offset).drop (i + 1), ?_, ?_, ?_⟩
  · rw [← hvalue, ← List.drop_eq_getElem_cons hlt, List.take_append_drop]
  · intro hmem
    obtain ⟨j, hj⟩ := List.mem_iff_getElem?.mp hmem
    rw [List.getElem?_drop] at hj
    obtain ⟨hjlt, _⟩ := List.getElem?_eq_some_iff.mp hj
    rw [List.length_take] at hjlt
    rw [List.getElem?_take_of_lt (by omega)] at hj
    exact hlast _ (by omega) (by omega) hj
  · exact List.length_take_of_le (Nat.le_of_lt hlt)

theorem marks_ofOffset (h : offset ≤ source.length) :
    Marks source offset ((Position.ofOffset source offset).line + 1)
      ((Position.ofOffset source offset).character + 1) where
  line_eq := by rw [Text.line_ofOffset, Nat.add_comm]
  first_line := fun hnone => by rw [Text.ofOffset_of_not_mem hnone h]
  later_line := fun i hi hnewline hlast => by
    obtain ⟨before, last, hcut, hnone, rfl⟩ := take_eq_of_last_newline hi hnewline hlast
    have hlength := List.length_take_of_le h
    rw [hcut, List.length_append, List.length_cons] at hlength
    rw [Text.ofOffset_lastLine hcut hnone]
    dsimp only
    omega

theorem marksWithin_ofOffset (h : offset ≤ source.length) :
    MarksWithin source offset ((Position.ofOffset source offset).line + 1)
      ((Position.ofOffset source offset).character + 1) where
  toMarks := marks_ofOffset h
  offset_le := h
  column_pos := Nat.succ_le_succ (Nat.zero_le _)
  in_line := by
    obtain ⟨text, hline, hcharacter⟩ := Text.within_ofOffset h
    exact ⟨text, hline, Nat.succ_le_succ hcharacter⟩
  returns := Text.offset_ofOffset h

end

/-! ## Rejections -/

section

variable {source filename : String}

theorem parse_of_malformed {fault : Json.SyntaxFault} {offset : Nat}
    (h : Json.decode source = .error ⟨.malformed fault, offset⟩) :
    LexicalGrammar.parse source filename = .error (.rejected ⟨.malformed fault
      ((Position.ofOffset source.toList offset).line + 1)
      ((Position.ofOffset source.toList offset).character + 1), filename⟩) := by
  unfold LexicalGrammar.parse
  rw [h]

theorem fault_of_decoded {document : Json} {fault : LoadFault}
    (h : Json.decode source = .ok document)
    (hfault : LexicalGrammar.parse source filename = .error fault) :
    ∃ e violation, fault = .rejected e ∧ e.fault = .invalid violation := by
  unfold LexicalGrammar.parse at hfault
  rw [h] at hfault
  obtain ⟨e, he, rfl⟩ := mapError_eq_error_iff.mp hfault
  unfold LexicalGrammar.ofJson at he
  split at he
  · cases he
  · next violation _ =>
    cases he
    exact ⟨_, violation, rfl, rfl⟩

end

/-- A text that is not JSON is rejected at the line and the column of an offset of it, where the
fault stands, and an editor shows the rejection there. Where an integer with too many digits comes
before the fault, there is no rejection, and nothing is shown. What breaks the schema has neither
a line nor a column. -/
theorem syntax_errors_located (uri source filename : String) :
    (∀ fault offset, Json.decode source = .error ⟨.malformed fault, offset⟩ →
      fault.StandsAt (source.toList.drop offset) ∧
      ∃ (e : GrammarError) (line column : Nat),
        LexicalGrammar.parse source filename = .error (.rejected e) ∧
        e.report = ⟨fault.message, filename, "", some line, some column⟩ ∧
        MarksWithin source.toList offset line column ∧
        ∃ d, validate uri source = .ok [⟨uri, [d]⟩] ∧ d.start = ⟨line - 1, column - 1⟩ ∧
          d.start.Within source.toList ∧ d.start.offset source.toList = offset) ∧
    (∀ e offset, Json.decode source = .error ⟨.longInteger e, offset⟩ →
      (offset ≤ source.toList.length ∧ Text.maxDigits < e.digits ∧
        Json.StartsWithInteger e.digits (source.toList.drop offset)) ∧
      LexicalGrammar.parse source filename = .error (.longInteger e) ∧
      validate uri source = .error (.longInteger e)) ∧
    ∀ document, Json.decode source = .ok document →
      ∀ fault, LexicalGrammar.parse source filename = .error fault →
        ∃ e, fault = .rejected e ∧ e.report.line = none ∧ e.report.column = none := by
  refine ⟨fun fault offset h => ?malformed, fun e offset h => ?longInteger,
    fun document h fault hfault => ?invalid⟩
  case malformed =>
    obtain ⟨hle, hstands⟩ := Json.standsAt_of_decode h
    exact ⟨hstands, _, _, _, parse_of_malformed h, rfl, marksWithin_ofOffset hle, _,
      validate_of_rejected (parse_of_malformed h), rfl, Text.within_ofOffset hle,
      Text.offset_ofOffset hle⟩
  case longInteger =>
    obtain ⟨hle, hlong, hstarts⟩ := Json.standsAt_of_decode h
    exact ⟨⟨hle, hlong, hstarts⟩, parse_of_longInteger filename h,
      validate_of_longInteger (parse_of_longInteger _ h)⟩
  case invalid =>
    obtain ⟨e, violation, rfl, hviolation⟩ := fault_of_decoded h hfault
    refine ⟨e, rfl, ?_⟩
    unfold GrammarError.report
    rw [hviolation]
    exact ⟨rfl, rfl⟩

/-- A string that is not closed, on the third line and behind two blanks. -/
def openName : String :=
  "\x7b\"reserved\": [\n\"let\",\n  \"in]\x7d"

theorem syntax_errors_located_open_name :
    Json.decode openName = .error ⟨.malformed .openString, 24⟩ ∧ ∃ e d,
      LexicalGrammar.parse openName "a.json" = .error (.rejected e) ∧
      e.report = ⟨"Unterminated string starting at", "a.json", "", some 3, some 3⟩ ∧
      MarksWithin openName.toList 24 3 3 ∧
      validate "/a.json" openName = .ok [⟨"/a.json", [d]⟩] ∧ d.start = ⟨2, 2⟩ := by
  have hdecode : Json.decode openName = .error ⟨.malformed .openString, 24⟩ :=
    Json.decode_of_fault (by decide +kernel)
  have hparsed : LexicalGrammar.parse openName "a.json" =
      .error (.rejected ⟨.malformed .openString 3 3, "a.json"⟩) := by decide +kernel
  obtain ⟨hmalformed, _⟩ := syntax_errors_located "/a.json" openName "a.json"
  obtain ⟨_, e, line, column, hparse, hreport, hmarks, d, hvalidate, hstart, _⟩ :=
    hmalformed _ _ hdecode
  obtain rfl := LoadFault.rejected.inj (Except.error.inj (hparsed.symm.trans hparse))
  have hline : (3 : Int) = line := Option.some.inj (congrArg Report.line hreport)
  have hcolumn : (3 : Int) = column := Option.some.inj (congrArg Report.column hreport)
  obtain rfl : line = 3 := by omega
  obtain rfl : column = 3 := by omega
  exact ⟨hdecode, _, d, hparsed, rfl, hmarks, hvalidate, hstart⟩

/-- A list that is left open behind an integer with one digit too many. -/
def openList : String :=
  String.ofList ('[' :: '1' :: List.replicate Text.maxDigits '1')

/-- The list is not rejected, and so has no line and no column. -/
theorem open_list_not_rejected :
    LexicalGrammar.parse openList "grammar.json" = .error (.longInteger ⟨4301⟩) := by
  have hdecode : Json.decode openList =
      .error ⟨.longInteger ⟨('1' :: List.replicate Text.maxDigits '1').length⟩, 1⟩ :=
    Json.decode_of_open_longInteger (by decide) (by decide) (by simp) (by simp)
  rw [List.length_cons, List.length_replicate] at hdecode
  exact parse_of_longInteger _ hdecode

end FlexSynth
