import FlexSynth.Regex.Basic

/-!
# Lexical grammars

What a scanner is generated from: the built-in categories in use, the literal
terminals, the token categories of the user and the comment forms. Every list
keeps the order of declaration.
-/

namespace FlexSynth

inductive Category where
  | string
  | char
  | double
  | integer
  | ident
  deriving DecidableEq, Repr

def Category.all : List Category :=
  [.string, .char, .double, .integer, .ident]

/-- The name that a grammar uses for a category. -/
def Category.name : Category → String
  | .string => "String"
  | .char => "Char"
  | .double => "Double"
  | .integer => "Integer"
  | .ident => "Ident"

/-- The lower-case form of an ASCII letter; other characters stay. No character
outside ASCII is a case form of a letter that a category name uses. -/
def asciiLower (text : String) : List Char :=
  text.toList.map Char.toLower

/-- The category of a name, in any case. -/
def Category.ofName? (name : String) : Option Category :=
  Category.all.find? fun c => asciiLower c.name = asciiLower name

/-- A token category of the user: a name and the words that belong to it. -/
structure TokenPragma where
  name : String
  regex : Regex
  deriving DecidableEq, Repr

structure BlockForm where
  start : String
  stop : String
  deriving DecidableEq, Repr

structure CommentForms where
  line : List String
  block : List BlockForm
  deriving DecidableEq, Repr

/-- The lexical part of a grammar. -/
structure LexicalGrammar where
  categories : List Category
  symbols : List String
  reserved : List String
  tokens : List TokenPragma
  comments : CommentForms
  deriving DecidableEq, Repr

namespace LexicalGrammar

/-- Whether the grammar uses a built-in category. -/
def uses (g : LexicalGrammar) (c : Category) : Bool :=
  g.categories.contains c

/-- The literal terminals: the symbols, then the reserved words. -/
def keywords (g : LexicalGrammar) : List String :=
  g.symbols ++ g.reserved

def tokenNames (g : LexicalGrammar) : List String :=
  g.tokens.map (·.name)

end LexicalGrammar

end FlexSynth
