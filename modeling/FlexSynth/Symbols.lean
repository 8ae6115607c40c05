import FlexSynth.Json.Print
import FlexSynth.Text.Join

/-!
# Terminal identifiers

The scanner and the parser of a language must agree on the identifier of every
terminal. A `SymbolTable` is that agreement: symbols and their identifiers, in
order, no symbol and no identifier twice.

`SymbolTable.ofEntries` refuses the first entry that repeats an earlier one.
`SymbolTable.number` gives identifiers by position, to the keywords first and
then to the token categories. `SymbolTable.toJson` is the form that a parser
generator reads.
-/

namespace FlexSynth

/-- A terminal that needs an identifier. -/
inductive Symbol where
  /-- A reserved word or a punctuation symbol. -/
  | keyword (text : String)
  | token (name : String)
  deriving DecidableEq, Repr

/-- Symbols and their identifiers, in order. The list is also the index in which symbols are looked
up, since none stands twice in it. -/
structure SymbolTable where
  entries : List (Symbol × String)
  deriving DecidableEq, Repr

/-! ## Symbols -/

namespace Symbol

/-- The text of a keyword or the name of a token category. -/
def text : Symbol → String
  | .keyword text => text
  | .token name => name

def kind : Symbol → String
  | .keyword _ => "keyword"
  | .token _ => "token"

/-- The name of the kind of a symbol in messages. -/
def className : Symbol → String
  | .keyword _ => "Keyword"
  | .token _ => "TokenCategory"

def display : Symbol → String
  | s@(.keyword text) => s!"{s.className}(text={Text.display text})"
  | s@(.token name) => s!"{s.className}(name={Text.display name})"

end Symbol

namespace SymbolTable

/-! ## Construction -/

/-- What an entry repeats of an earlier one. -/
inductive Clash where
  | symbol (s : Symbol)
  | identifier (id : String)
  deriving DecidableEq, Repr

def Clash.message : Clash → String
  | .symbol s => s!"duplicate symbol {s.display}"
  | .identifier id => s!"duplicate terminal identifier {Text.display id}"

/-- The first clash among entries, or with the entries `seen` before. -/
def clash? (seen : List (Symbol × String)) : List (Symbol × String) → Option Clash
  | [] => none
  | (s, id) :: rest =>
    if s ∈ seen.map (·.1) then some (.symbol s)
    else if id ∈ seen.map (·.2) then some (.identifier id)
    else clash? (seen ++ [(s, id)]) rest

/-- The table of some entries, if they do not clash. -/
def ofEntries (entries : List (Symbol × String)) : Except Clash SymbolTable :=
  match clash? [] entries with
  | some c => .error c
  | none => .ok ⟨entries⟩

def identifier (n : Nat) : String :=
  "_SYMB_" ++ toString n

/-- The symbols of a language: the keywords, then the token categories, each at
its first place. -/
def symbolsOf (keywords tokenNames : List String) : List Symbol :=
  keywords.eraseDups.map .keyword ++ tokenNames.eraseDups.map .token

/-- The table that numbers the symbols of a language. -/
def number (keywords tokenNames : List String) : SymbolTable :=
  ⟨(symbolsOf keywords tokenNames).zipIdx.map fun (s, n) => (s, identifier n)⟩

/-! ## Questions -/

def size (t : SymbolTable) : Nat :=
  t.entries.length

def find? (t : SymbolTable) (s : Symbol) : Option String :=
  t.entries.lookup s

def keywords (t : SymbolTable) : List (String × String) :=
  t.entries.filterMap fun
    | (.keyword text, id) => some (text, id)
    | (.token _, _) => none

/-- The identifier of a token category, or its name when it has none. -/
def tokenIdentifier (t : SymbolTable) (name : String) : String :=
  (t.find? (.token name)).getD name

/-! ## Texts -/

def entryJson (entry : Symbol × String) : Json :=
  .object [("kind", .string entry.1.kind), ("symbol", .string entry.1.text),
    ("id", .string entry.2)]

def toJson (t : SymbolTable) : Json :=
  .array (t.entries.map entryJson)

/-- The file that a parser generator reads. -/
def exported (t : SymbolTable) : String :=
  t.toJson.print ++ "\n"

/-- The table as messages show it. -/
def display (t : SymbolTable) : String :=
  let pairs := t.entries.map fun (s, id) => s!"({s.display}, {Text.display id})"
  let inner := Text.joinWith ", " pairs
  s!"SymbolEnvironment([{inner}])"

def entryLine : Symbol × String → String
  | (.keyword text, id) => s!"  {Text.padRight 10 id} keyword {Text.display text}\n"
  | (.token name, id) => s!"  {Text.padRight 10 id} token   {name}\n"

/-- The listing of a table, one symbol a line. -/
def dump (t : SymbolTable) : String :=
  s!"SymbolEnvironment ({t.size})\n" ++ String.join (t.entries.map entryLine)

end SymbolTable

end FlexSynth
