import FlexSynth.Grammar.Schema
import FlexSynth.Scanner.Synthesis

/-!
# Editor diagnostics

An editor shows at most one diagnostic for a grammar file. A rejected grammar is
an error, at the place of a syntax error or else at the start. A token category
without a pattern is a warning, at the first occurrence of its quoted name after
the key `tokens`. An integer that is not converted is no rejection, and leaves the
editor without an answer.
-/

namespace FlexSynth

inductive Severity where
  | error
  | warning
  deriving DecidableEq, Repr

/-- The number that the editor protocol gives to a severity. -/
def Severity.number : Severity → Nat
  | .error => 1
  | .warning => 2

/-- A message about a stretch of a document. -/
structure Diagnostic where
  start : Text.Position
  stop : Text.Position
  severity : Severity
  message : String
  deriving DecidableEq, Repr

/-- The name that diagnostics give as their origin. -/
def Diagnostic.source : String := "scangen"

/-- The part of a document's address after the last slash. -/
def fileNameOf (uri : String) : String :=
  String.ofList ((uri.toList.reverse.takeWhile (· ≠ '/')).reverse)

/-! ## Rejected grammars -/

/-- The position of a syntax error; other errors stand at the start. -/
def GrammarError.position (e : GrammarError) : Text.Position :=
  match e.fault with
  | .malformed _ line column => ⟨line - 1, column - 1⟩
  | .invalid _ => .start

/-- What the diagnostic of a rejected grammar says. -/
def GrammarError.note (e : GrammarError) : String :=
  let report := e.report
  if report.place.isEmpty then report.message
  else s!"{report.message} (in {report.place})"

/-- The diagnostic of a rejected grammar, one character long. -/
def GrammarError.diagnostic (e : GrammarError) : Diagnostic where
  start := e.position
  stop := { e.position with character := e.position.character + 1 }
  severity := .error
  message := e.note

/-! ## Token categories without a pattern -/

/-- The number of characters of the key `tokens` with its colon, if the text starts
with them. -/
def tokensKeyLength? (source : List Char) : Option Nat :=
  let key := "\"tokens\"".toList
  if key.isPrefixOf source then
    let rest := source.drop key.length
    let blanks := rest.takeWhile Json.isBlank
    match rest.drop blanks.length with
    | ':' :: _ => some (key.length + blanks.length + 1)
    | _ => none
  else none

/-- The offset after the first key `tokens` and its colon. -/
def tokensKeyEnd? : List Char → Option Nat
  | [] => none
  | c :: rest =>
    match tokensKeyLength? (c :: rest) with
    | some n => some n
    | none => (tokensKeyEnd? rest).map (· + 1)

/-- The diagnostic of a token category without a pattern. -/
def PatternError.diagnostic (e : PatternError) (source : List Char) : Diagnostic :=
  match e.token with
  | none | some "" => ⟨.start, ⟨0, 1⟩, .warning, e.fault.message⟩
  | some token =>
    let needle := '"' :: (token.toList ++ ['"'])
    let start := Text.positionOf source needle ((tokensKeyEnd? source).getD 0)
    let stop := { start with character := start.character + needle.length }
    ⟨start, stop, .warning, e.fault.message⟩

/-! ## Documents -/

/-- What keeps an editor from being told anything. -/
inductive EditorFault where
  | longInteger (e : Text.LongInteger)
  /-- The generator refuses the name of the scanner. -/
  | unusable (e : UnusableName)
  deriving DecidableEq, Repr

def EditorFault.message : EditorFault → String
  | .longInteger e => e.message
  | .unusable e => e.message

def diagnose (source filename : String) : Except EditorFault (List Diagnostic) :=
  match LexicalGrammar.parse source filename with
  | .error (.rejected e) => .ok [e.diagnostic]
  | .error (.longInteger e) => .error (.longInteger e)
  | .ok g => do
    let options ←
      (GeneratorOptions.checked { name := defaultName (.ofString filename) }).mapError .unusable
    match synthesize g options flexTranslator with
    | .ok _ => return []
    | .error e => return [e.diagnostic source.toList]

/-- What an editor is told about a document, in place of what it was told before. -/
structure Publication where
  uri : String
  diagnostics : List Diagnostic
  deriving DecidableEq, Repr

/-- What is published when a document is opened or has changed. -/
def validate (uri source : String) : Except EditorFault (List Publication) := do
  let diagnostics ← diagnose source (fileNameOf uri)
  return [⟨uri, diagnostics⟩]

end FlexSynth
