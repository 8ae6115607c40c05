import FlexSynth.Text.Quoted

/-!
# Scanner rules

A scanner is in one start state at a time. A rule is active in some start states
and has a flex pattern; when it wins, its actions run in order. The actions are
those that the generated scanners need: change the state, return a token, skip,
store the value of a token, and work on the buffer that collects a string
literal.
-/

namespace FlexSynth

/-! ## Names -/

namespace StartState

/-- The state that a scan starts in. -/
def initial : String := "YYINITIAL"

/-- Inside a string literal. -/
def string : String := "STRING"

/-- After a backslash in a string literal. -/
def stringEscape : String := "ESCAPED"

/-- After the opening quote of a character literal. -/
def char : String := "CHAR"

/-- After a backslash in a character literal. -/
def charEscape : String := "CHARESC"

/-- Before the closing quote of a character literal. -/
def charEnd : String := "CHAREND"

/-- The states of the literals, which every scanner declares. -/
def literals : List String :=
  [char, charEscape, charEnd, string, stringEscape]

end StartState

namespace BuiltinToken

def string : String := "_STRING_"

def char : String := "_CHAR_"

def double : String := "_DOUBLE_"

def integer : String := "_INTEGER_"

def ident : String := "_IDENT_"

/-- Input that belongs to no token. -/
def error : String := "_ERROR_"

/-- All tokens that a scanner has without being told. -/
def all : List String :=
  [string, char, double, integer, ident, error]

end BuiltinToken

/-! ## Actions -/

/-- A field of the value that the scanner hands over with a token. -/
inductive Slot where
  | string
  | char
  | int
  | double
  deriving DecidableEq, Repr

/-- Where the value of a token comes from. -/
inductive Source where
  /-- A copy of the matched text. -/
  | text
  | firstChar
  /-- A given character; rendering refuses a missing one. -/
  | constant (char : Option String)
  /-- The matched text, read as a whole number. -/
  | integer
  /-- The matched text, read as a floating-point number. -/
  | double
  /-- The literal buffer, which is given away with its content. -/
  | buffer
  deriving DecidableEq, Repr

/-- One step of what a rule does. -/
inductive Action where
  | begin (state : String)
  /-- Hand a token to the parser. -/
  | emit (token : String)
  /-- Discard the match. -/
  | skip (reason : String)
  | createBuffer
  /-- Append a given character, or the first matched one, to the buffer. -/
  | appendChar (char : Option String)
  | appendText
  | freeBuffer
  /-- Store a value for the token that is returned. -/
  | assign (slot : Slot) (source : Source)
  deriving DecidableEq, Repr

/-! ## Rules -/

/-- A scanner rule, with a note on where it comes from. -/
structure Rule where
  states : List String
  pattern : String
  actions : List Action
  note : Option String := none
  deriving DecidableEq, Repr

namespace Rule

/-- A rule of one start state, without a note. -/
def ofState (state pattern : String) (actions : List Action) : Rule where
  states := [state]
  pattern := pattern
  actions := actions

/-- The pattern that matches the end of the input. -/
def endOfInput : String := "<<EOF>>"

/-- Whether the rule is for the end of the input. -/
def isEndOfInput (r : Rule) : Bool :=
  r.pattern == endOfInput

def token? (r : Rule) : Option String :=
  r.actions.findSome? fun
    | .emit token => some token
    | _ => none

def activeIn (state : String) (r : Rule) : Bool :=
  r.states.contains state

end Rule

end FlexSynth
