import FlexSynth.Scanner.Rule
import FlexSynth.Text.Join

/-!
# Rules as text

A rule is one line of a scanner description: its states between angle brackets,
its pattern, a gap of blanks and a tab, and its actions as C statements. A note
follows as a C comment.
-/

namespace FlexSynth

/-- Why an action has no text. -/
inductive RenderFault where
  | notOneChar (text : Text.NotOneChar)
  | missingConstant
  deriving DecidableEq, Repr

def RenderFault.message : RenderFault → String
  | .notOneChar text => text.message
  | .missingConstant => "constant character value without a character"

def charLiteral (text : String) : Except RenderFault String :=
  (Text.cChar text).mapError .notOneChar

/-- The member of the value union that a slot is. -/
def Slot.member : Slot → String
  | .string => "_string"
  | .char => "_char"
  | .int => "_int"
  | .double => "_double"

def Source.render : Source → Except RenderFault String
  | .text => .ok "strdup(yytext)"
  | .firstChar => .ok "yytext[0]"
  | .constant none => .error .missingConstant
  | .constant (some char) => charLiteral char
  | .integer => .ok "atoi(yytext)"
  | .double => .ok "atof(yytext)"
  | .buffer => .ok "LITERAL_BUFFER_HARVEST()"

def Action.render : Action → Except RenderFault String
  | .begin state => .ok s!"BEGIN {state};"
  | .emit token => .ok s!"return {token};"
  | .skip reason => .ok s!"/* {reason} */;"
  | .createBuffer => .ok "LITERAL_BUFFER_CREATE();"
  | .appendChar none => .ok "LITERAL_BUFFER_APPEND_CHAR(yytext[0]);"
  | .appendChar (some char) => do
    let literal ← charLiteral char
    return s!"LITERAL_BUFFER_APPEND_CHAR({literal});"
  | .appendText => .ok "LITERAL_BUFFER_APPEND(yytext);"
  | .freeBuffer => .ok "LITERAL_BUFFER_FREE();"
  | .assign slot source => do
    let value ← source.render
    return s!"yylval.{slot.member} = {value};"

/-- The blanks between a pattern and its actions. -/
def gap : String := "    \t"

/-- The C comment for a note, none for an empty one. -/
def noteComment : Option String → String
  | none => ""
  | some note => if note.isEmpty then "" else s!" /* scangen: {note} */"

def Rule.render (r : Rule) : Except RenderFault String := do
  let actions ← r.actions.mapM Action.render
  let states := Text.joinWith "," r.states
  return "<" ++ states ++ ">" ++ r.pattern ++ gap ++ Text.joinWith " " actions
    ++ noteComment r.note

def renderRules (rules : List Rule) : Except RenderFault String := do
  let lines ← rules.mapM Rule.render
  return Text.joinLines lines

end FlexSynth
