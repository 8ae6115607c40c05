import FlexSynth.Proofs.Lines.Rules

/-!
# The rules can be read back from the text

The text of a description has the lines of its rules in order, between two lines that start
with two percent signs (`Description.Lines`). These marks are the first two in the text, unless a
name in it goes over several lines, so `ruleLines` finds the rules as flex does. Reading their
lines gives the rules back (`rules_read_back`), with one exception: where a set of characters ends
like a named class, flex takes its bracket expression to be open, and goes on reading in the gap.
-/

namespace FlexSynth

open Flex Partial

/-! ## Lines of texts -/

theorem splitOn_append_newline (text rest : List Char) :
    (text ++ '\n' :: rest).splitOn '\n' = text.splitOn '\n' ++ rest.splitOn '\n' :=
  List.splitOnP_append_cons text rest rfl

theorem splitOn_of_not_mem {text : List Char} (h : '\n' ∉ text) : text.splitOn '\n' = [text] := by
  have hone : ∀ line ∈ [text], '\n' ∉ line := by simpa using h
  simpa using List.splitOn_intercalate '\n' hone (List.cons_ne_nil _ _)

/-- The lines of some texts. -/
def linesOf (texts : List String) : List (List Char) :=
  texts.flatMap fun text => text.toList.splitOn '\n'

theorem linesOf_append (texts more : List String) :
    linesOf (texts ++ more) = linesOf texts ++ linesOf more :=
  List.flatMap_append

theorem linesOf_of_not_mem {texts : List String} (h : ∀ text ∈ texts, '\n' ∉ text.toList) :
    linesOf texts = texts.map String.toList := by
  unfold linesOf
  rw [List.flatMap_congr fun text htext => splitOn_of_not_mem (h text htext),
    List.map_eq_flatMap]

theorem splitOn_joinLines {texts : List String} (hne : texts ≠ []) :
    (Text.joinLines texts).toList.splitOn '\n' = linesOf texts := by
  induction texts with
  | nil => exact absurd rfl hne
  | cons text rest ih =>
    cases rest with
    | nil => simp [Text.joinLines, Text.joinWith, linesOf]
    | cons next rest =>
      have hcons : (Text.joinLines (text :: next :: rest)).toList =
          text.toList ++ '\n' :: (Text.joinLines (next :: rest)).toList := by
        simp [Text.joinLines, Text.joinWith]
      rw [hcons, splitOn_append_newline, ih (List.cons_ne_nil _ _)]
      rfl

/-! ## Marks -/

/-- Whether a line parts the sections of a description. -/
def isMark (line : List Char) : Bool :=
  "%%".toList.isPrefixOf line

/-- The lines between the first two marks of a text, without the empty ones. -/
def ruleLines (text : List Char) : List (List Char) :=
  ((((text.splitOn '\n').dropWhile (!isMark ·)).drop 1).takeWhile (!isMark ·)).filter (· ≠ [])

/-- The lines before the first mark do not matter, and neither do those behind the second. -/
theorem ruleLines_of_splitOn {text mark mark' : List Char} {before lines after : List (List Char)}
    (hmark : isMark mark = true) (hmark' : isMark mark' = true)
    (hbefore : ∀ line ∈ before, isMark line = false)
    (hlines : ∀ line ∈ lines, isMark line = false ∧ line ≠ [])
    (h : text.splitOn '\n' = before ++ mark :: (lines ++ [] :: mark' :: after)) :
    ruleLines text = lines := by
  have hdrop : (text.splitOn '\n').dropWhile (!isMark ·) =
      mark :: (lines ++ [] :: mark' :: after) := by
    rw [h, List.dropWhile_append_of_pos (by simpa using hbefore),
      List.dropWhile_cons_of_neg (by simp [hmark])]
  -- The empty line before the second mark is taken along, and left out at the end.
  have htake : (lines ++ [] :: mark' :: after).takeWhile (!isMark ·) = lines ++ [[]] := by
    have hempty : isMark [] = false := rfl
    rw [List.takeWhile_append_of_pos (by simpa using fun line hline => (hlines line hline).1),
      List.takeWhile_cons_of_pos (by simp [hempty]), List.takeWhile_cons_of_neg (by simp [hmark'])]
  unfold ruleLines
  have hall : lines.filter (· ≠ []) = lines :=
    List.filter_eq_self.mpr fun line hline => by simpa using (hlines line hline).2
  rw [hdrop, List.drop_succ_cons, List.drop_zero, htake, List.filter_append, hall]
  exact List.append_nil lines

/-! ## The lines of a description -/

def rulesMark : List Char :=
  "%%  /* Rules. */".toList

def codeMark : List Char :=
  "%%  /* Initialization code. */".toList

namespace Description

/-- What stands before the first mark. -/
def front (d : Description) : List String :=
  d.prelude ++ macroLines d.macros ++ [startLine d.startStates, ""]

/-- The lines are those of the rules section, which stands between two marks in the text. -/
structure Lines (d : Description) (text : String) (lines : List (List Char)) : Prop where
  of_section : ∃ sections, d.sections = .ok sections ∧ sections.rules.toList.splitOn '\n' = lines
  framed : ∃ after, text.toList.splitOn '\n' =
    linesOf d.front ++ rulesMark :: (lines ++ [] :: codeMark :: after)

theorem lines_of_text {d : Description} {text : String} (hprelude : d.prelude ≠ [])
    (h : d.text = .ok text) : ∃ lines, d.Lines text lines := by
  obtain ⟨sections, hsections, h⟩ := bind_eq_ok_iff.mp h
  cases h
  refine ⟨_, ⟨sections, hsections, rfl⟩, linesOf ("" :: d.footer) ++ [[]], ?_⟩
  obtain ⟨rules, _, h⟩ := bind_eq_ok_iff.mp hsections
  cases h
  have htext : (Sections.text ⟨Text.joinLines d.prelude, Text.joinLines d.definitions, rules,
      Text.joinLines d.closing⟩).toList = (Text.joinLines d.prelude).toList ++ '\n' ::
        ((Text.joinLines d.definitions).toList ++ '\n' :: (rules.toList ++ '\n' ::
          ((Text.joinLines d.closing).toList ++ ['\n']))) := by
    simp [Sections.text, Text.joinLines, Text.joinWith]
  rw [htext]
  simp only [splitOn_append_newline]
  rw [splitOn_joinLines hprelude, splitOn_joinLines (by simp [definitions]),
    splitOn_joinLines (by simp [closing])]
  -- The first mark is the last line of the definitions, and the second one is in the closing part.
  have hfront : linesOf d.prelude ++ linesOf d.definitions = linesOf d.front ++ [rulesMark] := by
    have hsplit : d.prelude ++ d.definitions = d.front ++ ["%%  /* Rules. */"] := by
      simp [definitions, front]
    rw [← linesOf_append, hsplit, linesOf_append]
    rfl
  have hclosing : linesOf d.closing = [] :: codeMark :: linesOf ("" :: d.footer) := rfl
  rw [← List.append_assoc, hfront, hclosing, List.append_assoc]
  rfl

end Description

/-! ### Lines before the first mark -/

/-- The text is one line, and not a mark. -/
def IsLine (text : String) : Prop :=
  '\n' ∉ text.toList ∧ isMark text.toList = false

instance : DecidablePred IsLine := fun _ => inferInstanceAs (Decidable (_ ∧ _))

/-- The first two characters of a line tell that it is no mark, so it can go on with any name. -/
theorem IsLine.append {text more : String} (h : IsLine text) (hlength : 2 ≤ text.toList.length)
    (hmore : '\n' ∉ more.toList) : IsLine (text ++ more) := by
  obtain ⟨hline, hmark⟩ := h
  unfold IsLine
  rw [String.toList_append, List.mem_append, not_or]
  refine ⟨⟨hline, hmore⟩, ?_⟩
  match htext : text.toList, hlength with
  | a :: b :: rest, _ =>
    rw [htext] at hmark
    exact hmark

/-- The names in a description have no line ends. -/
structure GeneratorOptions.OneLined (options : GeneratorOptions) : Prop where
  name : '\n' ∉ options.name.toList
  parserHeader : '\n' ∉ options.parserHeader.text.toList
  bufferHeader : '\n' ∉ options.bufferHeader.text.toList

theorem isLine_named {before name after : String} (hbefore : IsLine before)
    (hlength : 2 ≤ before.toList.length) (hname : '\n' ∉ name.toList)
    (hafter : '\n' ∉ after.toList) : IsLine (before ++ name ++ after) := by
  refine (hbefore.append hlength hname).append ?_ hafter
  rw [String.toList_append, List.length_append]
  exact Nat.le_add_right_of_le hlength

theorem isLine_bufferPrelude {header : String} (h : '\n' ∉ header.toList) :
    ∀ text ∈ bufferPrelude header, IsLine text := by
  have hlines : bufferPrelude header = (bufferPrelude "").take 2 ++
      ("#include \"" ++ header ++ "\"") :: (bufferPrelude "").drop 3 := rfl
  rw [hlines, List.forall_mem_append, List.forall_mem_cons]
  exact ⟨by decide, isLine_named (by decide) (by decide) h (by decide), by decide +kernel⟩

theorem isLine_preludeLines {options : GeneratorOptions} (h : options.OneLined) (literals : Bool) :
    ∀ text ∈ preludeLines options literals, IsLine text := by
  -- Four lines and the part of the buffer have names in them. The others are checked as they are.
  let bare := preludeLines ⟨"", .unnamed, .unnamed, false⟩ false
  have hlines : preludeLines options literals = bare.take 7 ++
      (["#define yylval " ++ options.name ++ "lval", "#define yylloc " ++ options.name ++ "lloc",
        "#define init_lexer " ++ options.name ++ "_init_lexer",
        "#include \"" ++ options.parserHeader.text ++ "\"", ""] ++
      ((if literals then bufferPrelude options.bufferHeader.text else []) ++ bare.drop 12)) := by
    cases literals <;> rfl
  rw [hlines]
  simp only [List.forall_mem_append, List.forall_mem_cons]
  refine ⟨by decide +kernel, ⟨?_, ?_, ?_, ?_, by decide⟩, ?_, by decide +kernel⟩
  · exact isLine_named (by decide) (by decide) h.name (by decide)
  · exact isLine_named (by decide) (by decide) h.name (by decide)
  · exact isLine_named (by decide) (by decide) h.name (by decide)
  · exact isLine_named (by decide) (by decide) h.parserHeader (by decide)
  · cases literals with
    | false => nofun
    | true => exact isLine_bufferPrelude h.bufferHeader

theorem isLine_startLine {states : List String} (h : ∀ state ∈ states, '\n' ∉ state.toList) :
    IsLine (startLine states) := by
  have hlater : '\n' ∉ (String.join (states.map (" " ++ ·))).toList := by
    rw [String.toList_join, List.mem_flatMap]
    rintro ⟨piece, hpiece, hmem⟩
    obtain ⟨state, hstate, rfl⟩ := List.mem_map.mp hpiece
    simp [h state hstate] at hmem
  unfold startLine
  rw [joinWith_cons]
  exact (show IsLine "%START" by decide).append (by decide) hlater

/-! ## The rules of a scanner -/

/-- The line is what the rule is written as, and it is read as the states, the pattern and the
actions of the rule. -/
def Rule.ReadFrom (dialect : Dialect) (r : Rule) (line : List Char) : Prop :=
  r.render = .ok (String.ofList line) ∧
    ∃ actions, r.actions.mapM Action.render = .ok actions ∧ readLine? dialect line =
      some ⟨r.states, r.pattern, Text.joinWith " " actions ++ noteComment r.note⟩

theorem Rule.Legible.readFrom {dialect : Dialect} {r : Rule} (h : r.Legible)
    (hpattern : Sheltered dialect r.pattern) : r.ReadFrom dialect r.line.toList := by
  refine ⟨?_, _, h.mapM_render, h.readLine?_line hpattern⟩
  rw [String.ofList_toList]
  exact h.render

theorem Rule.line_unmarked (r : Rule) :
    isMark r.line.toList = false ∧ r.line.toList ≠ [] := by
  have hline : ∃ rest, r.line.toList = '<' :: rest := by simp [Rule.line]
  obtain ⟨rest, hline⟩ := hline
  rw [hline]
  exact ⟨rfl, List.cons_ne_nil _ _⟩

section

variable {document : Json} {filename : String} {g : LexicalGrammar} {options : GeneratorOptions}
  {s : Synthesis}

theorem legible_of_synthesize (hs : synthesize g options flexTranslator = .ok s) :
    ∀ r ∈ s.description.rules, r.Legible := fun _ hr => ((mem_rules_iff hs).mp hr).legible

theorem isMark_front (hs : synthesize g options flexTranslator = .ok s) (h : options.OneLined) :
    ∀ line ∈ linesOf s.description.front, isMark line = false := by
  obtain ⟨groups, _, hs⟩ := bind_eq_ok_iff.mp hs
  cases hs
  have hstates : ∀ state ∈ StartState.initial :: StartState.literals ++ g.comments.states,
      '\n' ∉ state.toList := by
    intro state hstate
    refine not_mem_of_isWord ?_ (by decide)
    rcases List.mem_append.mp hstate with hfixed | hcomment
    · have hfixed' : ∀ state ∈ StartState.initial :: StartState.literals, isWord state = true := by
        decide
      exact hfixed' state hfixed
    · obtain ⟨_, n, _, rfl⟩ := mem_commentStates.mp hcomment
      exact isWord_commentState n
  have hfront : ∀ text ∈ (describe g options groups).front, IsLine text := by
    unfold Description.front
    simp only [List.forall_mem_append, List.forall_mem_cons]
    refine ⟨⟨isLine_preludeLines h _, ?_⟩, isLine_startLine hstates, by decide⟩
    show ∀ text ∈ macroLines standardMacros, IsLine text
    decide
  rw [linesOf_of_not_mem fun text htext => (hfront text htext).1]
  exact List.forall_mem_map.mpr fun text htext => (hfront text htext).2

/-- The pattern is that of a token with a set of characters that ends like a named class. -/
def LexicalGrammar.HasOpenClass (g : LexicalGrammar) (pattern : String) : Prop :=
  ∃ pragma ∈ g.tokens, pragma.regex.pattern = .ok pattern ∧
    ¬pragma.regex.AllSets fun chars => Dialect.named.Closes chars.toList

theorem sheltered_plain (hg : LexicalGrammar.ofJson document filename = .ok g)
    (hs : synthesize g options flexTranslator = .ok s) :
    ∀ r ∈ s.description.rules, Sheltered .plain r.pattern := fun _ hr =>
  ((mem_rules_iff hs).mp hr).sheltered (wellFormed_of_ofJson hg) fun _ _ _ =>
    Regex.allSets_of_forall (fun chars => closes_plain chars.toList) _

theorem readFrom_named (hg : LexicalGrammar.ofJson document filename = .ok g)
    (hs : synthesize g options flexTranslator = .ok s) :
    ∀ r ∈ s.description.rules, r.ReadFrom .named r.line.toList ∨ g.HasOpenClass r.pattern := by
  intro r hr
  by_cases hopen : g.HasOpenClass r.pattern
  · exact .inr hopen
  · refine .inl ((legible_of_synthesize hs r hr).readFrom ?_)
    refine ((mem_rules_iff hs).mp hr).sheltered (wellFormed_of_ofJson hg) ?_
    intro pragma hpragma hpattern
    by_contra hsets
    exact hopen ⟨pragma, hpragma, hpattern, hsets⟩

/-- The lines of the rules are in the text of a scanner, one for each rule. -/
theorem exists_text_of_synthesize (hs : synthesize g options flexTranslator = .ok s) :
    ∃ text, s.description.text = .ok text ∧
      s.description.Lines text (s.description.rules.map fun r => r.line.toList) := by
  have hlegible := legible_of_synthesize hs
  have hrules := renderRules_of_legible hlegible
  have htext : ∃ text, s.description.text = .ok text := by
    unfold Description.text Description.sections
    rw [hrules]
    exact ⟨_, rfl⟩
  have hprelude : s.description.prelude ≠ [] := by
    obtain ⟨_, _, hs⟩ := bind_eq_ok_iff.mp hs
    cases hs
    exact List.cons_ne_nil _ _
  obtain ⟨text, htext⟩ := htext
  obtain ⟨lines, hlines⟩ := Description.lines_of_text hprelude htext
  refine ⟨text, htext, ?_⟩
  have hsplit : lines = s.description.rules.map fun r => r.line.toList := by
    obtain ⟨sections, hsections, hlines⟩ := hlines.of_section
    have hjoined : sections.rules = Text.joinLines (s.description.rules.map Rule.line) := by
      obtain ⟨rules, hrules', hsections⟩ := bind_eq_ok_iff.mp hsections
      cases hsections
      exact Except.ok.inj (hrules'.symm.trans hrules)
    have hne : s.description.rules ≠ [] :=
      List.ne_nil_of_mem ((mem_rules_iff hs).mpr (.fallback List.mem_cons_self))
    rw [← hlines, hjoined, splitOn_joinLines (by simpa using hne), linesOf_of_not_mem, List.map_map]
    · rfl
    · exact List.forall_mem_map.mpr fun r hr => (hlegible r hr).newline_not_mem_line
  exact hsplit ▸ hlines

/-- The text has the lines of the rules, and they can be read back. Flex does so too, unless the
set of a token ends like a named class. No two rules of any scanners have the same line. -/
theorem rules_read_back (hg : LexicalGrammar.ofJson document filename = .ok g)
    (hs : synthesize g options flexTranslator = .ok s) :
    (∃ text lines, s.description.text = .ok text ∧ s.description.Lines text lines ∧
      (options.OneLined → ruleLines text.toList = lines) ∧
      List.Forall₂ (Rule.ReadFrom .plain) s.description.rules lines ∧
      List.Forall₂ (fun r line => r.ReadFrom .named line ∨ g.HasOpenClass r.pattern)
        s.description.rules lines) ∧
    ∀ {document' : Json} {filename' : String} {g' : LexicalGrammar} {options' : GeneratorOptions}
      {s' : Synthesis}, LexicalGrammar.ofJson document' filename' = .ok g' →
      synthesize g' options' flexTranslator = .ok s' →
      ∀ r ∈ s.description.rules, ∀ r' ∈ s'.description.rules, r.render = r'.render → r = r' := by
  refine ⟨?_, ?_⟩
  · obtain ⟨text, htext, hlines⟩ := exists_text_of_synthesize hs
    refine ⟨text, _, htext, hlines, ?_, ?_, ?_⟩
    · intro hone
      obtain ⟨after, hframed⟩ := hlines.framed
      refine ruleLines_of_splitOn rfl rfl (isMark_front hs hone) ?_ hframed
      exact List.forall_mem_map.mpr fun r _ => r.line_unmarked
    · rw [List.forall₂_map_right_iff, List.forall₂_same]
      exact fun r hr => (legible_of_synthesize hs r hr).readFrom (sheltered_plain hg hs r hr)
    · rw [List.forall₂_map_right_iff, List.forall₂_same]
      exact readFrom_named hg hs
  · intro document' filename' g' options' s' hg' hs' r hr r' hr' hsame
    have h := legible_of_synthesize hs r hr
    have h' := legible_of_synthesize hs' r' hr'
    rw [h.render, h'.render, Except.ok.injEq] at hsame
    exact h.eq_of_line_eq h' (sheltered_plain hg hs r hr) (sheltered_plain hg' hs' r' hr') hsame

/-- A grammar whose keywords, delimiters and classes have blanks, newlines, quotes,
brackets and backslashes in them. -/
def awkwardGrammar : LexicalGrammar where
  categories := [.string, .ident]
  symbols := ["a b", "\"\n", "[\\"]
  reserved := []
  tokens := [⟨"Odd", .seq (.minus (.oneOf "] \t\"") (.char "\t")) (.star (.word "\n "))⟩]
  comments := ⟨["# "], [⟨"*/ ", "\n"⟩]⟩

def awkwardDocument : Json := .object
  [("categories", .array [.string "String", .string "Ident"]),
   ("symbols", .array [.string "a b", .string "\"\n", .string "[\\"]),
   ("tokens", .array
     [.object [("name", .string "Odd"), ("regex", .array [.string "seq",
        .array [.string "minus", .array [.string "alts", .string "] \t\""],
          .array [.string "char", .string "\t"]],
        .array [.string "star", .array [.string "seqs", .string "\n "]]])]]),
   ("comments", .object [("line", .array [.string "# "]),
     ("block", .array [.array [.string "*/ ", .string "\n"]])])]

theorem rules_read_back_awkward :
    LexicalGrammar.ofJson awkwardDocument "awkward.json" = .ok awkwardGrammar ∧
    ∃ s, synthesize awkwardGrammar { name := "example" } flexTranslator = .ok s ∧
      (∃ text lines, s.description.text = .ok text ∧ s.description.Lines text lines ∧
        ruleLines text.toList = lines ∧
        List.Forall₂ (Rule.ReadFrom .plain) s.description.rules lines) ∧
      ∀ r ∈ s.description.rules, ∀ r' ∈ s.description.rules, r.render = r'.render → r = r' := by
  have hg : LexicalGrammar.ofJson awkwardDocument "awkward.json" = .ok awkwardGrammar := rfl
  have hs : ∃ s, synthesize awkwardGrammar { name := "example" } flexTranslator = .ok s := ⟨_, rfl⟩
  obtain ⟨s, hs⟩ := hs
  obtain ⟨⟨text, lines, htext, hlines, hmarked, hread, _⟩, hapart⟩ := rules_read_back hg hs
  exact ⟨hg, s, hs, ⟨text, lines, htext, hlines, hmarked ⟨by decide, by decide, by decide⟩, hread⟩,
    hapart hg hs⟩

/-- A token that any of the characters in `[:alpha:` stands for. -/
def openClassGrammar : LexicalGrammar where
  categories := []
  symbols := []
  reserved := []
  tokens := [⟨"Part", .oneOf "[:alpha:"⟩]
  comments := ⟨[], []⟩

def openClassDocument : Json := .object
  [("tokens", .array [.object [("name", .string "Part"),
    ("regex", .array [.string "alts", .string "[:alpha:"])]])]

/-- The set in the line of this token is left open. -/
theorem open_class_not_read :
    LexicalGrammar.ofJson openClassDocument "open.json" = .ok openClassGrammar ∧
    ∃ s, synthesize openClassGrammar { name := "example" } flexTranslator = .ok s ∧
      ∃ r ∈ s.description.rules, ∃ line, r.render = .ok line ∧
        readLine? .named line.toList = none := by
  refine ⟨rfl, _, rfl, _, List.mem_cons_self, _, rfl, ?_⟩
  decide +kernel

end

end FlexSynth
