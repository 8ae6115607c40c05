import FlexSynth.Files.Path
import FlexSynth.Text.Display

/-!
# Scanner names

The name of a scanner becomes part of C identifiers. A name that was not chosen
is made from the name of the grammar file: every character that an identifier
cannot hold becomes an underscore, and an underscore goes before a leading digit.
-/

namespace FlexSynth

def isWordChar (c : Char) : Bool :=
  c.isAlphanum || c == '_'

/-- Whether a text can be part of C identifiers: a row of letters, digits and
underscores that does not start with a digit. -/
def isCIdentifier (text : String) : Bool :=
  text.toList.all isWordChar && match text.toList.head? with
    | some c => !c.isDigit
    | none => false

structure UnusableName where
  name : String
  deriving DecidableEq, Repr

def UnusableName.message (e : UnusableName) : String :=
  s!"scanner name must be a C identifier: {Text.display e.name}"

/-- Puts an underscore before a leading digit; no characters at all become a
general name. -/
def startName : List Char → List Char
  | [] => "scanner".toList
  | c :: rest => if c.isDigit then '_' :: c :: rest else c :: rest

/-- The name of the scanner of a grammar file. -/
def defaultName (file : Path) : String :=
  String.ofList (startName (file.stem.toList.map fun c => if isWordChar c then c else '_'))

end FlexSynth
