import FlexSynth.Grammar.Schema
import FlexSynth.Proofs.Partial
import FlexSynth.Proofs.Regex.Pieces
import FlexSynth.Proofs.Scan.Basic
import FlexSynth.Scanner.Synthesis

/-!
# The rules of a scanner

A scanner has a rule for each keyword, comment form and token category of its grammar
and some fixed rules. `RuleOrigin` lists them with what is known about each, and
`mem_rules_iff` says that the list is complete. Proofs about all rules of all scanners
go through its cases.

One fact about their patterns is needed everywhere. No pattern of a keyword or comment is
`<<EOF>>`, and none of a token category that `flexTranslator` writes, so only literals
have rules for the end of the input (`RuleOrigin.literal_of_endOfInput`).
-/

namespace FlexSynth

open Partial

/-! ## Origins -/

/-- Where the rules of a scanner come from. -/
inductive RuleOrigin (g : LexicalGrammar) (options : GeneratorOptions) (translate : Translator) :
    Rule → Prop
  | keyword {text id : String} : (text, id) ∈ g.symbolTable.keywords →
      RuleOrigin g options translate (.ofState StartState.initial (Text.cString text) [.emit id])
  | comment {r : Rule} : r ∈ g.comments.rules → RuleOrigin g options translate r
  | token {pragma : TokenPragma} {r : Rule} : pragma ∈ g.tokens →
      tokenRule g.symbolTable translate pragma = .ok r → RuleOrigin g options translate r
  | literal {r : Rule} : r ∈ literalRules g options.charLiteralErrors →
      RuleOrigin g options translate r
  | category {entry : CategoryRule} : entry ∈ categoryTable → g.uses entry.category = true →
      RuleOrigin g options translate entry.rule
  | fallback {r : Rule} : r ∈ fallbackRules → RuleOrigin g options translate r

section

variable {g : LexicalGrammar} {options : GeneratorOptions} {translate : Translator}
  {s : Synthesis} {r : Rule}

/-- A scanner has a rule for each token category, in order, between the fixed ones. -/
theorem synthesize_eq_ok_iff : synthesize g options translate = .ok s ↔
    ∃ tokens, List.Forall₂ (fun pragma r => tokenRule g.symbolTable translate pragma = .ok r)
        g.tokens tokens ∧
      s.groups = ⟨keywordRules g.symbolTable, g.comments.rules, tokens,
        literalRules g options.charLiteralErrors, categoryRules g⟩ ∧
      s.description = describe g options s.groups ∧ s.symbols = g.symbolTable := by
  unfold synthesize ruleGroups
  simp only [bind_eq_ok_iff]
  constructor
  · rintro ⟨groups, ⟨tokens, htokens, hgroups⟩, hs⟩
    cases hgroups
    cases hs
    exact ⟨tokens, mapM_eq_ok_iff.mp htokens, rfl, rfl, rfl⟩
  · rintro ⟨tokens, htokens, hgroups, hdescription, hsymbols⟩
    refine ⟨s.groups, ⟨tokens, mapM_eq_ok_iff.mpr htokens, ?_⟩, ?_⟩
    · rw [hgroups]
      rfl
    · rw [← hdescription, ← hsymbols]
      rfl

theorem macros_of_synthesize (h : synthesize g options translate = .ok s) :
    s.description.macros = standardMacros := by
  obtain ⟨tokens, _, _, hdescription, _⟩ := synthesize_eq_ok_iff.mp h
  rw [hdescription]
  rfl

theorem symbols_of_synthesize (h : synthesize g options translate = .ok s) :
    s.symbols = g.symbolTable := by
  obtain ⟨tokens, _, _, _, hsymbols⟩ := synthesize_eq_ok_iff.mp h
  exact hsymbols

theorem mem_keywordRules {symbols : SymbolTable} : r ∈ keywordRules symbols ↔
    ∃ text id, (text, id) ∈ symbols.keywords ∧
      r = .ofState StartState.initial (Text.cString text) [.emit id] := by
  unfold keywordRules
  rw [List.mem_map]
  constructor
  · rintro ⟨⟨text, id⟩, hmem, rfl⟩
    exact ⟨text, id, hmem, rfl⟩
  · rintro ⟨text, id, hmem, rfl⟩
    exact ⟨(text, id), hmem, rfl⟩

theorem mem_commentRules {forms : CommentForms} : r ∈ forms.rules ↔
    (∃ delimiter ∈ forms.line, r = lineCommentRule delimiter) ∨
    ∃ form n, (form, n) ∈ forms.block.zipIdx ∧ r ∈ blockCommentRules form (commentState n) := by
  unfold CommentForms.rules
  rw [List.mem_append, List.mem_map, List.mem_flatMap]
  constructor
  · rintro (⟨delimiter, hmem, rfl⟩ | ⟨⟨form, n⟩, hmem, hr⟩)
    · exact .inl ⟨delimiter, hmem, rfl⟩
    · exact .inr ⟨form, n, hmem, hr⟩
  · rintro (⟨delimiter, hmem, rfl⟩ | ⟨form, n, hmem, hr⟩)
    · exact .inl ⟨delimiter, hmem, rfl⟩
    · exact .inr ⟨(form, n), hmem, hr⟩

theorem mem_literalRules {charErrors : Bool} : r ∈ literalRules g charErrors ↔
    (g.uses .string = true ∧ r ∈ stringLiteralRules BuiltinToken.string BuiltinToken.error) ∨
    (g.uses .char = true ∧
      r ∈ charRules BuiltinToken.char (if charErrors then some BuiltinToken.error else none)) := by
  unfold literalRules
  rw [List.mem_append]
  cases g.uses .string <;> cases g.uses .char <;> simp

/-- What can be decided of the rules of literals, with and without errors, holds of
those of a scanner. -/
theorem forall_mem_literalRules {P : Rule → Prop} {charErrors : Bool}
    (hstring : ∀ r ∈ stringLiteralRules BuiltinToken.string BuiltinToken.error, P r)
    (hchar : ∀ errors : Bool, ∀ r ∈ charRules BuiltinToken.char
      (if errors then some BuiltinToken.error else none), P r)
    (hr : r ∈ literalRules g charErrors) : P r := by
  rcases mem_literalRules.mp hr with ⟨_, hr⟩ | ⟨_, hr⟩
  · exact hstring r hr
  · exact hchar charErrors r hr

theorem mem_categoryRules : r ∈ categoryRules g ↔
    ∃ entry ∈ categoryTable, g.uses entry.category = true ∧ r = entry.rule := by
  unfold categoryRules
  rw [List.mem_map]
  constructor
  · rintro ⟨entry, hmem, rfl⟩
    obtain ⟨htable, huses⟩ := List.mem_filter.mp hmem
    exact ⟨entry, htable, huses, rfl⟩
  · rintro ⟨entry, htable, huses, rfl⟩
    exact ⟨entry, List.mem_filter.mpr ⟨htable, huses⟩, rfl⟩

theorem rules_of_synthesize (h : synthesize g options translate = .ok s) :
    ∃ tokens, List.Forall₂ (fun pragma r => tokenRule g.symbolTable translate pragma = .ok r)
        g.tokens tokens ∧
      s.description.rules = keywordRules g.symbolTable ++ g.comments.rules ++ tokens
        ++ literalRules g options.charLiteralErrors ++ categoryRules g ++ fallbackRules := by
  obtain ⟨tokens, htokens, hgroups, hdescription, _⟩ := synthesize_eq_ok_iff.mp h
  refine ⟨tokens, htokens, ?_⟩
  rw [hdescription, hgroups]
  rfl

/-- Exactly the rules with an origin are rules of a scanner. -/
theorem mem_rules_iff (h : synthesize g options translate = .ok s) :
    r ∈ s.description.rules ↔ RuleOrigin g options translate r := by
  obtain ⟨tokens, htokens, hrules⟩ := rules_of_synthesize h
  have htoken : r ∈ tokens ↔
      ∃ pragma ∈ g.tokens, tokenRule g.symbolTable translate pragma = .ok r :=
    mem_results_iff htokens
  rw [hrules]
  simp only [List.mem_append, mem_keywordRules, htoken, mem_categoryRules]
  constructor
  · rintro (((((⟨text, id, hmem, rfl⟩ | hr) | ⟨pragma, hmem, hr⟩) | hr) | ⟨entry, hmem, huses, rfl⟩) |
      hr)
    · exact .keyword hmem
    · exact .comment hr
    · exact .token hmem hr
    · exact .literal hr
    · exact .category hmem huses
    · exact .fallback hr
  · intro horigin
    cases horigin with
    | keyword hmem => exact .inl (.inl (.inl (.inl (.inl ⟨_, _, hmem, rfl⟩))))
    | comment hr => exact .inl (.inl (.inl (.inl (.inr hr))))
    | token hmem hr => exact .inl (.inl (.inl (.inr ⟨_, hmem, hr⟩)))
    | literal hr => exact .inl (.inl (.inr hr))
    | category hmem huses => exact .inl (.inr ⟨_, hmem, huses, rfl⟩)
    | fallback hr => exact .inr hr

end

theorem tokenRule_eq_ok_iff {symbols : SymbolTable} {translate : Translator} {pragma : TokenPragma}
    {r : Rule} : tokenRule symbols translate pragma = .ok r ↔
      ∃ pattern, translate pragma.regex = .ok pattern ∧
        r = .ofState StartState.initial pattern
          [.assign .string .text, .emit (symbols.tokenIdentifier pragma.name)] := by
  unfold tokenRule
  cases translate pragma.regex with
  | error e => simp
  | ok pattern => simp [eq_comm]

theorem mem_blockCommentRules {form : BlockForm} {state : String} {r : Rule} :
    r ∈ blockCommentRules form state ↔
      r = ⟨[StartState.initial], Text.cString form.start, [.begin state],
        delimiterNote "block comment" [form.start, form.stop]⟩ ∨
      r = .ofState state (Text.cString form.stop) [.begin StartState.initial] ∨
      r = .ofState state "." [.skip "skip"] ∨ r = .ofState state "[\\n]" [.skip "skip"] := by
  simp [blockCommentRules]

/-! ## Comment states -/

theorem commentState_starts (n : Nat) : "COMMENT".toList <+: (commentState n).toList := by
  cases n with
  | zero => exact List.prefix_rfl
  | succ n =>
    unfold commentState
    rw [String.toList_append]
    exact List.prefix_append _ _

/-- A comment state is none of the other start states. -/
theorem commentState_not_mem (n : Nat) :
    commentState n ∉ StartState.initial :: StartState.literals := by
  intro hmem
  have hfixed : ∀ state ∈ StartState.initial :: StartState.literals,
      ¬"COMMENT".toList <+: state.toList := by decide
  exact hfixed _ hmem (commentState_starts n)

theorem mem_commentStates {forms : CommentForms} {state : String} :
    state ∈ forms.states ↔ ∃ form n, (form, n) ∈ forms.block.zipIdx ∧ state = commentState n := by
  unfold CommentForms.states commentStates
  rw [List.mem_map]
  constructor
  · rintro ⟨n, hn, rfl⟩
    rw [List.mem_range] at hn
    have hmem := List.mk_mem_zipIdx_iff_getElem?.mpr (List.getElem?_eq_getElem hn)
    exact ⟨forms.block[n], n, hmem, rfl⟩
  · rintro ⟨form, n, hmem, rfl⟩
    rw [List.mk_mem_zipIdx_iff_getElem?] at hmem
    exact ⟨n, List.mem_range.mpr (List.getElem?_eq_some_iff.mp hmem).1, rfl⟩

/-! ## The end of the input -/

/-- Whether the text starts, and not like the pattern for the end of the input. -/
def startsPattern (text : String) : Bool :=
  text.toList.head?.any (· ≠ '<')

theorem startsPattern_append {text : String} (h : startsPattern text = true) (more : String) :
    startsPattern (text ++ more) = true := by
  unfold startsPattern at *
  rw [String.toList_append]
  cases htext : text.toList with
  | nil =>
    rw [htext] at h
    cases h
  | cons c rest =>
    rw [htext] at h
    exact h

theorem ne_endOfInput_of_startsPattern {text : String} (h : startsPattern text = true) :
    text ≠ Rule.endOfInput := by
  rintro rfl
  exact absurd h (by decide)

theorem startsPattern_cString (text : String) : startsPattern (Text.cString text) = true := by
  unfold startsPattern
  rw [Flex.toList_cString]
  rfl

theorem startsPattern_bracket (chars : String) : startsPattern (Regex.bracket chars) = true := by
  unfold Regex.bracket
  rw [String.append_assoc]
  exact startsPattern_append (by decide) _

theorem startsPattern_pieces : PieceProperty fun text => startsPattern text = true where
  append := fun h _ => startsPattern_append h _
  literal := startsPattern_cString
  bracket := fun chars _ => startsPattern_bracket chars
  sign := by decide

theorem flexTranslator_eq_ok_iff {r : Regex} {text : String} :
    flexTranslator r = .ok text ↔ r.pattern = .ok text := by
  unfold flexTranslator
  exact Partial.mapError_eq_ok_iff

/-- No expression is written like the end of the input. -/
theorem startsPattern_flexTranslator {r : Regex} {text : String}
    (h : flexTranslator r = .ok text) : startsPattern text = true :=
  startsPattern_pieces.pattern (.inr (startsPattern_bracket "")) (flexTranslator_eq_ok_iff.mp h)

/-- No expression is written as the pattern for the end of the input. -/
def Translator.AvoidsEnd (translate : Translator) : Prop :=
  ∀ regex pattern, translate regex = .ok pattern → pattern ≠ Rule.endOfInput

theorem flexTranslator_avoidsEnd : Translator.AvoidsEnd flexTranslator :=
  fun _ _ h => ne_endOfInput_of_startsPattern (startsPattern_flexTranslator h)

/-- Only literals have rules for the end of the input. -/
theorem RuleOrigin.literal_of_endOfInput {g : LexicalGrammar} {options : GeneratorOptions}
    {translate : Translator} {r : Rule} (horigin : RuleOrigin g options translate r)
    (htranslate : translate.AvoidsEnd) (hend : r.isEndOfInput = true) :
    r ∈ literalRules g options.charLiteralErrors := by
  have hpattern : r.pattern = Rule.endOfInput := beq_iff_eq.mp hend
  have hend : ¬startsPattern r.pattern = true := fun hstarts =>
    ne_endOfInput_of_startsPattern hstarts hpattern
  cases horigin with
  | keyword _ => exact absurd (startsPattern_cString _) hend
  | comment hr =>
    rcases mem_commentRules.mp hr with ⟨delimiter, _, rfl⟩ | ⟨form, n, _, hr⟩
    · exact absurd (startsPattern_append (startsPattern_cString _) _) hend
    · rcases mem_blockCommentRules.mp hr with rfl | rfl | rfl | rfl
      · exact absurd (startsPattern_cString _) hend
      · exact absurd (startsPattern_cString _) hend
      · exact absurd (show startsPattern "." = true by decide) hend
      · exact absurd (show startsPattern "[\\n]" = true by decide) hend
  | token _ hr =>
    obtain ⟨pattern, hok, rfl⟩ := tokenRule_eq_ok_iff.mp hr
    exact absurd hpattern (htranslate _ _ hok)
  | literal hr => exact hr
  | category hmem _ =>
    have hstarts : ∀ entry ∈ categoryTable, startsPattern entry.pattern = true := by decide
    exact absurd (hstarts _ hmem) hend
  | fallback hr =>
    have hstarts : ∀ r ∈ fallbackRules, startsPattern r.pattern = true := by decide
    exact absurd (hstarts r hr) hend

/-! ## An example -/

/-- A grammar that uses everything a scanner has rules for. -/
def exampleGrammar : LexicalGrammar where
  categories := Category.all
  symbols := ["(", "if"]
  reserved := ["if"]
  tokens := [⟨"Version", .seq (.char "v") (.plus (.named .digit))⟩, ⟨"Version", .word "HEAD"⟩]
  comments := ⟨["//"], [⟨"/*", "*/"⟩]⟩

def exampleDocument : Json := .object
  [("categories", .array (Category.all.map fun c => .string c.name)),
   ("symbols", .array [.string "(", .string "if"]),
   ("reserved", .array [.string "if"]),
   ("tokens", .array
     [.object [("name", .string "Version"), ("regex", .array [.string "seq",
        .array [.string "char", .string "v"], .array [.string "plus", .array [.string "digit"]]])],
      .object [("name", .string "Version"), ("regex", .array [.string "seqs", .string "HEAD"])]]),
   ("comments", .object [("line", .array [.string "//"]),
     ("block", .array [.array [.string "/*", .string "*/"]])])]

theorem ofJson_exampleDocument :
    LexicalGrammar.ofJson exampleDocument "example.json" = .ok exampleGrammar :=
  rfl

end FlexSynth
