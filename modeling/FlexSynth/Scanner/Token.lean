import FlexSynth.Grammar.Basic
import FlexSynth.Regex.Pattern
import FlexSynth.Scanner.Rule
import FlexSynth.Symbols

/-!
# Tokens

Rules that return a token for a whole match: one for each keyword, one for each
token category of the user, one for each built-in category of numbers and
identifiers, and the two rules that every scanner ends with.
-/

namespace FlexSynth

/-! ## Keywords -/

/-- A rule for each keyword, which matches exactly its text. -/
def keywordRules (symbols : SymbolTable) : List Rule :=
  symbols.keywords.map fun (text, id) =>
    .ofState StartState.initial (Text.cString text) [.emit id]

/-! ## Token categories -/

/-- A way to write a regular expression as a pattern, or refuse it. -/
abbrev Translator := Regex → Except PatternError String

/-- The flex pattern syntax. A refusal does not know the token category. -/
def flexTranslator : Translator :=
  fun r => r.pattern.mapError (⟨·, none⟩)

/-- The rule of a token category; a refusal is blamed on it. -/
def tokenRule (symbols : SymbolTable) (translate : Translator) (pragma : TokenPragma) :
    Except PatternError Rule :=
  match translate pragma.regex with
  | .ok pattern => .ok (.ofState StartState.initial pattern
      [.assign .string .text, .emit (symbols.tokenIdentifier pragma.name)])
  | .error e => .error (e.forToken pragma.name)

/-- A rule for each token category, in order; the first refusal counts. -/
def tokenRules (symbols : SymbolTable) (translate : Translator) (pragmas : List TokenPragma) :
    Except PatternError (List Rule) :=
  pragmas.mapM (tokenRule symbols translate)

/-! ## Built-in categories -/

/-- The pattern of a built-in category and what its token carries. -/
structure CategoryRule where
  category : Category
  pattern : String
  slot : Slot
  source : Source
  token : String
  deriving DecidableEq, Repr

/-- The built-in categories that one rule matches. Identifiers come last, after
everything that looks like one. -/
def categoryTable : List CategoryRule :=
  [⟨.double, "\x7bDIGIT\x7d+\".\"\x7bDIGIT\x7d+(\"e\"(\\-)?\x7bDIGIT\x7d+)?", .double, .double,
    BuiltinToken.double⟩,
   ⟨.integer, "\x7bDIGIT\x7d+", .int, .integer, BuiltinToken.integer⟩,
   ⟨.ident, "\x7bLETTER\x7d\x7bIDENT\x7d*", .string, .text, BuiltinToken.ident⟩]

def CategoryRule.rule (entry : CategoryRule) : Rule :=
  .ofState StartState.initial entry.pattern
    [.assign entry.slot entry.source, .emit entry.token]

/-- The rules of the built-in categories in use. -/
def categoryRules (g : LexicalGrammar) : List Rule :=
  (categoryTable.filter fun entry => g.uses entry.category).map CategoryRule.rule

/-! ## Everything else -/

/-- White space is skipped, and any other character is an error. -/
def fallbackRules : List Rule :=
  [.ofState StartState.initial "[ \\t\\r\\n\\f]" [.skip "ignore white space."],
   .ofState StartState.initial "." [.emit BuiltinToken.error]]

end FlexSynth
