import FlexSynth.Regex.Basic
import FlexSynth.Text.Quoted

/-!
# Flex patterns

`Regex.pattern` writes an expression in flex's pattern syntax. Three of its
rules are not obvious from the expression:

* flex has no pattern for the empty word, so empty factors of a sequence are
  left out, and an alternation with one empty branch becomes an option;
* a difference is written between bracket expressions. Flex reads `{-}` and
  `{+}` from left to right, so a union on the right of a difference is taken
  away part by part;
* parentheses are written only where the context binds tighter than the
  expression.

An expression without a pattern is refused with a `PatternFault`, and
`PatternError` adds the token category that it belongs to.
-/

namespace FlexSynth

/-! ## Refusals -/

inductive Repetition where
  | star
  | plus
  | opt
  deriving DecidableEq, Repr

def Repetition.symbol : Repetition → String
  | .star => "*"
  | .plus => "+"
  | .opt => "?"

/-- Why an expression has no pattern. -/
inductive PatternFault where
  | emptyExpression
  /-- An empty expression stands where a pattern is needed. -/
  | emptyFactor
  | emptySet
  | emptyAlternation
  | emptyOperand (op : Repetition)
  /-- An operand of a difference is no character class. -/
  | notClasses
  | noBranches
  /-- The words of another translator. -/
  | reported (message : String)
  deriving DecidableEq, Repr

def PatternFault.message : PatternFault → String
  | .emptyExpression => "empty regular expression cannot be used as a token pattern"
  | .emptyFactor => "empty regular expression cannot be rendered here"
  | .emptySet => "empty character set in regular expression"
  | .emptyAlternation => "alternation of empty expressions"
  | .emptyOperand op => s!"operator '{op.symbol}' applied to the empty expression"
  | .notClasses => "difference is only supported between character classes"
  | .noBranches => "alternation needs at least one branch"
  | .reported message => message

/-- A refused expression, with the token category that it defines when known. -/
structure PatternError where
  fault : PatternFault
  token : Option String
  deriving DecidableEq, Repr

/-- The same refusal, blamed on a token category. -/
def PatternError.forToken (e : PatternError) (token : String) : PatternError :=
  { e with token := some token }

def PatternError.format (e : PatternError) : String :=
  match e.token with
  | none | some "" => s!"error: {e.fault.message}"
  | some token => s!"error: {e.fault.message}\n  --> token {token}"

/-! ## ASCII classes -/

/-- The bracket expression of an ASCII class. -/
def CharClass.bracket : CharClass → String
  | .digit => "[0-9]"
  | .letter => "[a-zA-Z]"
  | .upper => "[A-Z]"
  | .lower => "[a-z]"

/-- The macro that names an ASCII class. -/
def CharClass.use : CharClass → String
  | .digit => "\x7bDIGIT\x7d"
  | .letter => "\x7bLETTER\x7d"
  | .upper => "\x7bCAPITAL\x7d"
  | .lower => "\x7bSMALL\x7d"

namespace Regex

/-! ## Bracket expressions -/

/-- One character inside brackets. Backslash, closing bracket, caret and hyphen
have a meaning there, and control characters are written as escapes. -/
def bracketChar (c : Char) : List Char :=
  if c = '\\' ∨ c = ']' ∨ c = '^' ∨ c = '-' then ['\\', c]
  else if c = '\n' then ['\\', 'n']
  else if c = '\t' then ['\\', 't']
  else if c = '\r' then ['\\', 'r']
  else if Text.isControl c then Text.octalEscape c
  else [c]

/-- The characters of a bracket expression, each standing for itself. -/
def bracketBody (chars : List Char) : List Char :=
  chars.flatMap bracketChar

/-- The bracket expression for any one of the characters. -/
def bracket (chars : String) : String :=
  "[" ++ String.ofList (bracketBody chars.toList) ++ "]"

/-- The bracket expressions, joined by `{+}`, of a character class: a union of
characters, character sets and named classes. -/
def classPattern? : Regex → Option String
  | .char text => some (bracket text)
  | .oneOf chars => if chars.isEmpty then none else some (bracket chars)
  | .any => some "[^\\n]"
  | .named cls => some cls.bracket
  | .alt left right => do
    let l ← classPattern? left
    let r ← classPattern? right
    return l ++ "\x7b+\x7d" ++ r
  | _ => none

/-- The branches of nested alternations, from left to right. -/
def branches : Regex → List Regex
  | .alt left right => left.branches ++ right.branches
  | r => [r]

/-! ## Rendering -/

/-- Whether the expression is written as the empty word. -/
def isEmpty : Regex → Bool
  | .eps => true
  | .word text => text.isEmpty
  | .seq left right => left.isEmpty && right.isEmpty
  | _ => false

/-- Whether a postfix operator would bind to a part of the expression only. -/
def needsGroup : Regex → Bool
  | .word text => 1 < text.length
  | .seq .. | .alt .. | .minus .. | .star .. | .plus .. | .opt .. => true
  | _ => false

/-- What an expression is a part of, from the loosest binding to the tightest. -/
inductive Context where
  | whole
  | branch
  | factor
  | operand
  deriving DecidableEq, Repr

/-- Parentheses around a text, where they are needed. -/
def grouped (needed : Bool) (text : String) : String :=
  if needed then "(" ++ text ++ ")" else text

/-- The pattern of a repeated expression, from the way to render its body. -/
def repeated (op : Repetition) (body : Regex) (render : Context → Except PatternFault String) :
    Except PatternFault String :=
  if body.isEmpty then .error (.emptyOperand op)
  else do
    let text ← render (if body.needsGroup then .whole else .operand)
    return grouped body.needsGroup text ++ op.symbol

/-- The pattern of an expression in a context. -/
def render : Regex → Context → Except PatternFault String
  | .char text, _ => .ok (Text.cString text)
  | .word text, _ => .ok (Text.cString text)
  | .oneOf chars, _ => if chars.isEmpty then .error .emptySet else .ok (bracket chars)
  | .seq left right, context =>
    if left.isEmpty then right.render context
    else if right.isEmpty then left.render context
    else do
      let l ← left.render .factor
      let r ← right.render .factor
      return grouped (context = .operand) (l ++ r)
  | .alt left right, context =>
    if left.isEmpty then
      if right.isEmpty then .error .emptyAlternation else repeated .opt right right.render
    else if right.isEmpty then repeated .opt left left.render
    else do
      let l ← left.render .branch
      let r ← right.render .branch
      return grouped (context = .factor ∨ context = .operand) (l ++ "|" ++ r)
  | .minus left right, _ =>
    match left.classPattern?, right.branches.mapM classPattern? with
    | some l, some rs => .ok (l ++ String.join (rs.map ("\x7b-\x7d" ++ ·)))
    | _, _ => .error .notClasses
  | .star body, _ => repeated .star body body.render
  | .plus body, _ => repeated .plus body body.render
  | .opt body, _ => repeated .opt body body.render
  | .eps, _ => .error .emptyFactor
  | .named cls, _ => .ok cls.use
  | .any, _ => .ok "."

/-- The flex pattern of an expression. -/
def pattern (r : Regex) : Except PatternFault String :=
  if r.isEmpty then .error .emptyExpression else r.render .whole

end Regex

end FlexSynth
