import FlexSynth.Text.Display
import FlexSynth.Text.Join
import FlexSynth.Text.LongInteger
import FlexSynth.Text.Position
import FlexSynth.Toml.Basic

/-!
# Malformed TOML

A malformed document is refused with a fault and its place. Reading goes along
the characters that are left, so a place is known by how many of them remain. An
integer with too many digits ends the reading too, with a failure of its own.
-/

namespace FlexSynth.Toml

/-- What keeps a text from being TOML. -/
inductive SyntaxFault where
  | invalidStatement
  | missingLineEnd
  | missingDelimiter (delimiter : String)
  | invalidChar (c : Char)
  | illegalChar (c : Char)
  | declaredTwice (key : Key)
  | overwritten
  | openTableHeader
  | openArrayHeader
  | frozen (key : Key)
  | redefined (key : Key)
  | missingEquals
  | missingKey
  | openArray
  | openInlineTable
  | duplicateKey (name : String)
  | badEscape
  | badHexEscape
  | notScalar
  | openString
  | invalidDate
  | invalidValue
  deriving DecidableEq, Repr

def displayKey (key : Key) : String :=
  match key with
  | [name] => s!"({Text.display name},)"
  | names =>
    let inner := Text.joinWith ", " (names.map Text.display)
    s!"({inner})"

def SyntaxFault.message : SyntaxFault → String
  | .invalidStatement => "Invalid statement"
  | .missingLineEnd => "Expected newline or end of document after a statement"
  | .missingDelimiter delimiter => s!"Expected {Text.display delimiter}"
  | .invalidChar c => s!"Found invalid character {Text.display c.toString}"
  | .illegalChar c => s!"Illegal character {Text.display c.toString}"
  | .declaredTwice key => s!"Cannot declare {displayKey key} twice"
  | .overwritten => "Cannot overwrite a value"
  | .openTableHeader => "Expected ']' at the end of a table declaration"
  | .openArrayHeader => "Expected ']]' at the end of an array declaration"
  | .frozen key => s!"Cannot mutate immutable namespace {displayKey key}"
  | .redefined key => s!"Cannot redefine namespace {displayKey key}"
  | .missingEquals => "Expected '=' after a key in a key/value pair"
  | .missingKey => "Invalid initial character for a key part"
  | .openArray => "Unclosed array"
  | .openInlineTable => "Unclosed inline table"
  | .duplicateKey name => s!"Duplicate inline table key {Text.display name}"
  | .badEscape => "Unescaped '\\' in a string"
  | .badHexEscape => "Invalid hex value"
  | .notScalar => "Escaped character is not a Unicode scalar value"
  | .openString => "Unterminated string"
  | .invalidDate => "Invalid date or datetime"
  | .invalidValue => "Invalid value"

/-- What ends the reading of a document. -/
inductive Stop where
  /-- A fault, and the number of characters from its place to the end. -/
  | malformed (fault : SyntaxFault) (remaining : Nat)
  | longInteger (e : Text.LongInteger)
  deriving DecidableEq, Repr

/-- What was read and the characters that are left. -/
abbrev Reading (α : Type) := α × List Char

/-- Stops at the first of the characters that are left. -/
def stopAt {α : Type} (fault : SyntaxFault) (rest : List Char) : Except Stop α :=
  .error (.malformed fault rest.length)

/-- A fault and its place; there is none at the end of the document. Lines and
columns count from one. -/
structure SyntaxError where
  fault : SyntaxFault
  position : Option Text.Position
  deriving DecidableEq, Repr

def SyntaxError.message (e : SyntaxError) : String :=
  match e.position with
  | none => s!"{e.fault.message} (at end of document)"
  | some p => s!"{e.fault.message} (at line {p.line + 1}, column {p.character + 1})"

inductive DecodeError where
  | malformed (e : SyntaxError)
  | longInteger (e : Text.LongInteger)
  deriving DecidableEq, Repr

def Stop.inDocument (stop : Stop) (document : List Char) : DecodeError :=
  match stop with
  | .malformed fault 0 => .malformed ⟨fault, none⟩
  | .malformed fault remaining =>
    .malformed ⟨fault, some (.ofOffset document (document.length - remaining))⟩
  | .longInteger e => .longInteger e

end FlexSynth.Toml
