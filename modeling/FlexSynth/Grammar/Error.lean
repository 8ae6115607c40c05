import FlexSynth.Grammar.Place
import FlexSynth.Json.Decode
import FlexSynth.Text.Display

/-!
# Rejected grammars

A grammar file is rejected because its text is not JSON, at a line and a column,
or because a value in it breaks the schema, at a place of the document. `Report`
is either as a reader sees it.
-/

namespace FlexSynth

/-- How a value can break the schema of a grammar. -/
inductive SchemaFault where
  | grammarNotObject
  | unknownKey (key : String)
  | notStrings
  | unknownCategory (name : String)
  | emptyKeyword
  | tokensNotList
  | tokenNotObject
  | tokenUnnamed
  | tokenWithoutRegex (name : String)
  | commentsNotObject
  | emptyDelimiter
  | blocksNotList
  | notDelimiterPair
  | notNode
  | operandCount (kind : String) (expected actual : Nat)
  | notOneCharacter
  | notText (kind : String)
  | noBranches
  | unknownKind (kind : String)
  deriving DecidableEq, Repr

def SchemaFault.message : SchemaFault → String
  | .grammarNotObject => "grammar must be a JSON object"
  | .unknownKey key => s!"unknown key {Text.display key}"
  | .notStrings => "expected a list of strings"
  | .unknownCategory name => s!"unknown category {Text.display name}"
  | .emptyKeyword => "empty keyword"
  | .tokensNotList => "expected a list of token pragmas"
  | .tokenNotObject => "token pragma must be an object"
  | .tokenUnnamed => "token pragma needs a non-empty 'name'"
  | .tokenWithoutRegex name => s!"token {Text.display name} has no 'regex'"
  | .commentsNotObject => "expected an object"
  | .emptyDelimiter => "empty comment delimiter"
  | .blocksNotList => "expected a list of [start, end] pairs"
  | .notDelimiterPair => "expected a [start, end] pair of delimiters"
  | .notNode => "regex node must be a list starting with its kind"
  | .operandCount kind expected actual =>
    s!"{Text.display kind} takes {expected} operand(s), got {actual}"
  | .notOneCharacter => "'char' takes a single character"
  | .notText kind => s!"{Text.display kind} takes a string"
  | .noBranches => "'alt' needs at least one branch"
  | .unknownKind kind => s!"unknown regex kind {Text.display kind}"

/-- A fault and the place of the value that has it. -/
structure Violation where
  fault : SchemaFault
  place : Place
  deriving DecidableEq, Repr

/-- Why a grammar is rejected. Lines and columns count from one. -/
inductive GrammarFault where
  | malformed (fault : Json.SyntaxFault) (line column : Nat)
  | invalid (violation : Violation)
  deriving DecidableEq, Repr

structure GrammarError where
  fault : GrammarFault
  filename : String
  deriving DecidableEq, Repr

/-- Why there is no grammar: it is rejected, or an integer in its file is not converted, which
is no rejection. -/
inductive LoadFault where
  | rejected (e : GrammarError)
  | longInteger (e : Text.LongInteger)
  deriving DecidableEq, Repr

/-- A rejection as it is shown; an empty place is left out. -/
structure Report where
  message : String
  filename : String
  place : String
  line : Option Int
  column : Option Int
  deriving DecidableEq, Repr

/-- The file and, when the line is known, the line and column; the column counts
as one unless a positive or negative one is known. -/
def Report.location (r : Report) : String :=
  match r.line with
  | none => r.filename
  | some line =>
    let column := match r.column with
      | none | some 0 => 1
      | some column => column
    s!"{r.filename}:{line}:{column}"

def Report.format (r : Report) : String :=
  let head := s!"error: {r.message}\n  --> {r.location}"
  if r.place.isEmpty then head else s!"{head}\n   | in {r.place}"

/-- What a reader is told of a rejected grammar. -/
def GrammarError.report (e : GrammarError) : Report :=
  match e.fault with
  | .malformed fault line column => ⟨fault.message, e.filename, "", some line, some column⟩
  | .invalid v => ⟨v.fault.message, e.filename, v.place.text, none, none⟩

end FlexSynth
