import FlexSynth.Proofs.Regex.Pieces
import FlexSynth.Proofs.Text.Quoted

/-!
# Reading the lines of rules

A line of a scanner description is read as flex reads it: start states between angle
brackets, then a pattern, and then what to do. The pattern ends at the first blank that
stands outside of double quotes and brackets and not after a backslash (`cutPattern?`),
so it is a row of the lexemes that patterns are read by. If one of them is left open,
there is no such line.

A text is *sheltered* when it is read as a pattern up to its end, whatever follows the
blank behind it (`Sheltered`). Quoted literals and bracket expressions have no blank
outside of them, and so the pattern of every expression that holds single characters is
sheltered (`sheltered_pattern`), with the exception of a bracket expression that is left
open in the dialect.
-/

namespace FlexSynth.Flex

/-! ## Lines -/

def isBlank (c : Char) : Bool :=
  c = ' ' || c = '\t'

/-- What flex makes of the line of a rule. -/
structure RuleLine where
  states : List String
  pattern : String
  action : String
  deriving DecidableEq, Repr

section

variable (dialect : Dialect)

/-- The pattern in front of a text, and what comes after it. The first `skip` characters
belong to a lexeme that has been read already. -/
def cutPattern? : (skip : Nat) → List Char → Option (List Char × List Char)
  | _, [] => some ([], [])
  | skip + 1, c :: rest =>
    (cutPattern? skip rest).map fun (pattern, after) => (c :: pattern, after)
  | 0, c :: rest =>
    if isBlank c then some ([], c :: rest)
    else match lexeme? dialect (c :: rest) with
      | none => none
      | some (_, length) =>
        (cutPattern? (length - 1) rest).map fun (pattern, after) => (c :: pattern, after)

def readLine? : List Char → Option RuleLine
  | '<' :: line =>
    match line.dropWhile (· ≠ '>') with
    | _ :: body => (cutPattern? dialect 0 body).map fun (pattern, after) =>
      { states := ((line.takeWhile (· ≠ '>')).splitOn ',').map String.ofList
        pattern := String.ofList pattern
        action := String.ofList (after.dropWhile isBlank) }
    | [] => none
  | _ => none

end

example : readLine? .named "<A,B>[ \\]]\" \"\\ x  \treturn y;".toList =
    some ⟨["A", "B"], "[ \\]]\" \"\\ x", "return y;"⟩ := by
  decide

/-! ## Sheltered texts -/

/-- The text is read as a pattern up to its end, whatever follows the blank behind it. -/
def Sheltered (dialect : Dialect) (text : String) : Prop :=
  ∀ rest, cutPattern? dialect 0 (text.toList ++ ' ' :: rest) = some (text.toList, ' ' :: rest)

/-- The text is a row of lexemes, whatever follows it, and none of them is a blank. -/
def Unbroken (dialect : Dialect) (text : String) : Prop :=
  ∃ ls, Cuts dialect text.toList ls ∧ ∀ c, isBlank c = true → .glyph (.plain c) ∉ ls

section

variable {dialect : Dialect} {text more : String}

theorem cutPattern?_skip (code rest : List Char) :
    cutPattern? dialect code.length (code ++ rest) =
      (cutPattern? dialect 0 rest).map fun (pattern, after) => (code ++ pattern, after) := by
  induction code with
  | nil => exact (Option.map_id' (x := cutPattern? dialect 0 rest)).symm
  | cons c code ih =>
    rw [List.length_cons, List.cons_append, cutPattern?, ih, Option.map_map]
    rfl

/-- A blank is a lexeme of its own. -/
theorem lexeme?_of_isBlank {c : Char} (h : isBlank c = true) (rest : List Char) :
    lexeme? dialect (c :: rest) = some (.glyph (.plain c), 1) := by
  have hblank : c = ' ' ∨ c = '\t' := by simpa [isBlank] using h
  rcases hblank with rfl | rfl <;> rfl

/-- A row of lexemes without a blank is part of a pattern. -/
theorem Cuts.cutPattern?_append {text : List Char} {ls : List Lexeme} (h : Cuts dialect text ls)
    (hblank : ∀ c, isBlank c = true → .glyph (.plain c) ∉ ls) (rest : List Char) :
    cutPattern? dialect 0 (text ++ rest) =
      (cutPattern? dialect 0 rest).map fun (pattern, after) => (text ++ pattern, after) := by
  induction h with
  | nil => exact (Option.map_id' (x := cutPattern? dialect 0 rest)).symm
  | @cons code text l ls hcode _ ih =>
    have hread := hcode (text ++ rest)
    obtain ⟨c, more, rfl⟩ := hcode.exists_cons
    rw [List.append_assoc, List.cons_append]
    rw [List.cons_append] at hread
    have hc : ¬isBlank c = true := by
      intro hc
      rw [lexeme?_of_isBlank hc, Option.some.injEq, Prod.mk.injEq] at hread
      exact hblank c hc (hread.1 ▸ List.mem_cons_self)
    rw [cutPattern?, if_neg hc, hread]
    dsimp only
    rw [List.length_cons, Nat.add_sub_cancel, cutPattern?_skip,
      ih fun c hc hmem => hblank c hc (List.mem_cons_of_mem l hmem), Option.map_map, Option.map_map]
    congr 1
    funext found
    exact congrArg (·, found.2) (congrArg (c :: ·) (List.append_assoc more text found.1).symm)

theorem Unbroken.sheltered (h : Unbroken dialect text) : Sheltered dialect text := by
  obtain ⟨ls, hcuts, hblank⟩ := h
  intro rest
  have hstop : cutPattern? dialect 0 (' ' :: rest) = some ([], ' ' :: rest) := rfl
  rw [hcuts.cutPattern?_append hblank, hstop, Option.map_some]
  dsimp only
  rw [List.append_nil]

theorem Unbroken.append (h : Unbroken dialect text) (hmore : Unbroken dialect more) :
    Unbroken dialect (text ++ more) := by
  obtain ⟨ls, hcuts, hblank⟩ := h
  obtain ⟨ms, hcuts', hblank'⟩ := hmore
  refine ⟨ls ++ ms, ?_, fun c hc hmem => ?_⟩
  · rw [String.toList_append]
    exact hcuts.append hcuts'
  · exact (List.mem_append.mp hmem).elim (hblank c hc) (hblank' c hc)

/-- A sheltered text can have an unbroken one before it. -/
theorem Unbroken.append_sheltered (h : Unbroken dialect text) (hmore : Sheltered dialect more) :
    Sheltered dialect (text ++ more) := by
  obtain ⟨ls, hcuts, hblank⟩ := h
  intro rest
  rw [String.toList_append, List.append_assoc, hcuts.cutPattern?_append hblank, hmore rest]
  rfl

/-! ## Patterns of expressions -/

theorem unbroken_of_spells {l : Lexeme} (h : Spells dialect text.toList l)
    (hblank : ∀ c, isBlank c = true → .glyph (.plain c) ≠ l) : Unbroken dialect text :=
  ⟨[l], h.cuts, fun c hc hmem => hblank c hc (List.mem_singleton.mp hmem)⟩

theorem unbroken_cString (text : String) : Unbroken dialect (Text.cString text) :=
  unbroken_of_spells (spells_cString text) nofun

theorem unbroken_bracket {chars : String} (hne : chars ≠ "") (hend : dialect.Closes chars.toList) :
    Unbroken dialect (Regex.bracket chars) :=
  unbroken_of_spells (spells_bracket hne hend) nofun

theorem unbroken_sign (h : text ∈ patternSigns) : Unbroken dialect text := by
  have hplain {c : Char} (hc : IsSimple c) (hblank : isBlank c = false) :
      Unbroken dialect (String.ofList [c]) := by
    refine unbroken_of_spells (l := .glyph (.plain c)) ?_ ?_
    · rw [String.toList_ofList]
      exact spells_plain hc
    · rintro d hd ⟨⟩
      rw [hblank] at hd
      cases hd
  have hbraces (name : List Char) (hname : ∀ c ∈ name, c ∉ ['\\', '\n', '\x7d']) :
      Unbroken dialect (String.ofList ('\x7b' :: (name ++ ['\x7d']))) := by
    refine unbroken_of_spells (l := .braces name) ?_ nofun
    rw [String.toList_ofList]
    exact spells_braces name hname
  have hbracket {text : String} {b : Bracket} (hspells : Spells dialect text.toList (.bracket b)) :
      Unbroken dialect text :=
    unbroken_of_spells hspells nofun
  rcases List.mem_append.mp h with h | h
  · simp only [List.mem_cons, List.not_mem_nil, or_false] at h
    rcases h with rfl | rfl | rfl | rfl | rfl | rfl | rfl | rfl | rfl | rfl
    · exact hplain (c := '(') (by decide) rfl
    · exact hplain (c := ')') (by decide) rfl
    · exact hplain (c := '|') (by decide) rfl
    · exact hplain (c := '*') (by decide) rfl
    · exact hplain (c := '+') (by decide) rfl
    · exact hplain (c := '?') (by decide) rfl
    · exact hbraces ['+'] (by simp)
    · exact hbraces ['-'] (by simp)
    · exact hplain (c := '.') (by decide) rfl
    · exact hbracket (b := ⟨true, [.single '\n']⟩) fun _ => rfl
  · obtain ⟨cls, _, hcls⟩ := List.mem_flatMap.mp h
    simp only [List.mem_cons, List.not_mem_nil, or_false] at hcls
    rcases hcls with rfl | rfl
    · cases cls with
      | digit => exact hbracket (b := ⟨false, [.range '0' '9']⟩) fun _ => rfl
      | letter =>
        exact hbracket (b := ⟨false, [.range 'a' 'z', .range 'A' 'Z']⟩) fun _ => rfl
      | upper => exact hbracket (b := ⟨false, [.range 'A' 'Z']⟩) fun _ => rfl
      | lower => exact hbracket (b := ⟨false, [.range 'a' 'z']⟩) fun _ => rfl
    · cases cls with
      | digit => exact hbraces "DIGIT".toList (by simp)
      | letter => exact hbraces "LETTER".toList (by simp)
      | upper => exact hbraces "CAPITAL".toList (by simp)
      | lower => exact hbraces "SMALL".toList (by simp)

end

theorem unbroken_pieces (dialect : Dialect) :
    PieceRule (fun _ => True) (fun chars => dialect.Closes chars.toList) (Unbroken dialect) where
  append := Unbroken.append
  literal := fun text _ => unbroken_cString text
  bracket := fun _ => unbroken_bracket
  sign := fun _ => unbroken_sign

/-- No blank and no bracket in the pattern of an expression is read as something else, unless
the characters of a set end like a named class. -/
theorem sheltered_pattern {dialect : Dialect} {r : Regex} (hr : r.HasSingleChars)
    (hsets : r.AllSets fun chars => dialect.Closes chars.toList) {text : String}
    (h : r.pattern = .ok text) : Sheltered dialect text :=
  ((unbroken_pieces dialect).pattern (.inl hr) hsets (fun _ _ => trivial) h).sheltered

/-! ## One line -/

theorem newline_not_mem_cString (text : String) : '\n' ∉ (Text.cString text).toList := by
  rw [toList_cString]
  intro hmem
  cases Text.isControl_of_mem_quoted Text.isQuote_double hmem

theorem newline_not_mem_bracket (chars : String) : '\n' ∉ (Regex.bracket chars).toList := by
  rw [toList_bracket]
  intro hmem
  simp only [List.mem_cons, List.mem_append, List.not_mem_nil, or_false] at hmem
  rcases hmem with hopen | hbody | hclose
  · cases hopen
  · obtain ⟨c, _, hc⟩ := List.mem_flatMap.mp hbody
    cases isControl_of_mem_bracketChar hc
  · cases hclose

theorem newline_pieces : PieceProperty fun text => '\n' ∉ text.toList where
  append := fun h hmore => by
    rw [String.toList_append, List.mem_append, not_or]
    exact ⟨h, hmore⟩
  literal := newline_not_mem_cString
  bracket := fun chars _ => newline_not_mem_bracket chars
  sign := by decide

/-- The pattern of an expression stays on its line. -/
theorem newline_not_mem_pattern {r : Regex} {text : String} (h : r.pattern = .ok text) :
    '\n' ∉ text.toList :=
  newline_pieces.pattern (.inr (newline_not_mem_bracket "")) h

end FlexSynth.Flex
