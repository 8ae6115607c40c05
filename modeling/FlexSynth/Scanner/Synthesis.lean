import FlexSynth.Scanner.Comment
import FlexSynth.Scanner.Description
import FlexSynth.Scanner.Literal
import FlexSynth.Scanner.Name
import FlexSynth.Scanner.Token

/-!
# From a grammar to a scanner

`synthesize` makes the scanner description of a grammar and the symbol table
that goes with it. It fails only when a token category has no pattern.

The order of the rules carries meaning: the longest match wins, and the earlier
rule among equals. So the order is keywords, comments, token categories,
literals, built-in categories, white space, and last the rule for errors.
-/

namespace FlexSynth

/-! ## Options -/

/-- The header that an `#include` line names. One that was chosen without a name
is written as an empty list. -/
inductive Header where
  | file (name : String)
  | unnamed
  deriving DecidableEq, Repr

/-- A header as an `#include` line has it. -/
def Header.text : Header → String
  | .file name => name
  | .unnamed => "[]"

/-- What can be chosen about a scanner. The name goes into C identifiers. -/
structure GeneratorOptions where
  name : String
  parserHeader : Header := .file "Parser.h"
  bufferHeader : Header := .file "Buffer.h"
  charLiteralErrors : Bool := true
  deriving DecidableEq, Repr

def GeneratorOptions.checked (options : GeneratorOptions) :
    Except UnusableName GeneratorOptions :=
  if isCIdentifier options.name then .ok options else .error ⟨options.name⟩

/-! ## Fixed parts -/

/-- The macros of every description. -/
def standardMacros : List (String × String) :=
  [("LETTER", "[a-zA-Z]"), ("CAPITAL", "[A-Z]"), ("SMALL", "[a-z]"), ("DIGIT", "[0-9]"),
   ("IDENT", "[a-zA-Z0-9'_]")]

/-- The C code before the rules. Locations are kept by code that runs before
every action, so they are right for every token. -/
def preludeLines (options : GeneratorOptions) (stringLiterals : Bool) : List String :=
  ["/* -*- c -*- This flex file was machine-generated by scangen */",
   "%option noyywrap noinput nounput",
   "%top\x7b",
   "/* strdup is POSIX, not ISO C before C23. */",
   "#define _POSIX_C_SOURCE 200809L",
   "\x7d",
   "%\x7b",
   s!"#define yylval {options.name}lval",
   s!"#define yylloc {options.name}lloc",
   s!"#define init_lexer {options.name}_init_lexer",
   s!"#include \"{options.parserHeader.text}\"",
   ""]
  ++ (if stringLiterals then bufferPrelude options.bufferHeader.text else [])
  ++ ["static void update_loc(YYLTYPE* loc, char* text)",
      "\x7b",
      "  loc->first_line = loc->last_line;",
      "  loc->first_column = loc->last_column;",
      "  int i = 0;",
      "  for (; text[i] != '\\0'; ++i) \x7b",
      "      if (text[i] == '\\n') \x7b",
      "          ++loc->last_line;",
      "          loc->last_column = 0;",
      "      \x7d else \x7b",
      "          ++loc->last_column;",
      "      \x7d",
      "  \x7d",
      "\x7d",
      "#define YY_USER_ACTION update_loc(&yylloc, yytext);",
      "",
      "%\x7d"]

def footerLines : List String :=
  ["void init_lexer(FILE *inp)",
   "\x7b",
   "  yyrestart(inp);",
   "  yylloc.first_line   = 1;",
   "  yylloc.first_column = 1;",
   "  yylloc.last_line    = 1;",
   "  yylloc.last_column  = 1;",
   "  BEGIN YYINITIAL;",
   "\x7d"]

/-! ## Rules -/

/-- The rules of a scanner by their origin. -/
structure RuleGroups where
  keywords : List Rule
  comments : List Rule
  tokens : List Rule
  literals : List Rule
  categories : List Rule
  deriving DecidableEq, Repr

/-- All rules in the order of their priority. -/
def RuleGroups.all (groups : RuleGroups) : List Rule :=
  groups.keywords ++ groups.comments ++ groups.tokens ++ groups.literals ++ groups.categories
    ++ fallbackRules

def literalRules (g : LexicalGrammar) (charErrors : Bool) : List Rule :=
  (if g.uses .string then stringLiteralRules BuiltinToken.string BuiltinToken.error else [])
  ++ (if g.uses .char then
        charRules BuiltinToken.char (if charErrors then some BuiltinToken.error else none)
      else [])

def LexicalGrammar.symbolTable (g : LexicalGrammar) : SymbolTable :=
  .number g.keywords g.tokenNames

def ruleGroups (g : LexicalGrammar) (options : GeneratorOptions) (translate : Translator) :
    Except PatternError RuleGroups := do
  let tokens ← tokenRules g.symbolTable translate g.tokens
  return { keywords := keywordRules g.symbolTable, comments := g.comments.rules, tokens,
           literals := literalRules g options.charLiteralErrors,
           categories := categoryRules g }

/-- The description of a scanner with some rules. -/
def describe (g : LexicalGrammar) (options : GeneratorOptions) (groups : RuleGroups) :
    Description where
  prelude := preludeLines options (g.uses .string)
  macros := standardMacros
  startStates := StartState.initial :: StartState.literals ++ g.comments.states
  rules := groups.all
  footer := footerLines

/-- The scanner of a grammar, and the symbols that it shares with the parser. -/
structure Synthesis where
  groups : RuleGroups
  description : Description
  symbols : SymbolTable
  deriving DecidableEq, Repr

/-- Makes the scanner of a grammar. -/
def synthesize (g : LexicalGrammar) (options : GeneratorOptions) (translate : Translator) :
    Except PatternError Synthesis := do
  let groups ← ruleGroups g options translate
  return { groups, description := describe g options groups, symbols := g.symbolTable }

/-! ## Progress -/

/-- What is logged before the token categories are translated. -/
def startProgress (g : LexicalGrammar) : List String :=
  let states := g.comments.states
  let shown := if states.isEmpty then "(none)" else Text.joinWith ", " states
  [s!"symbol environment: {g.symbolTable.size} entries", s!"comment states: {shown}"]

def RuleGroups.progress (groups : RuleGroups) : String :=
  s!"rules: {groups.keywords.length} keyword, {groups.comments.length} comment, "
    ++ s!"{groups.tokens.length} token, {groups.literals.length} literal, "
    ++ s!"{groups.all.length} total"

end FlexSynth
