/-!
# Regular expressions

The expressions that define a token category. Sequences and alternations of
many parts are nested to the right, which `Regex.sequence` and
`Regex.alternation?` do.
-/

namespace FlexSynth

/-- The ASCII classes that have a macro in every scanner description. -/
inductive CharClass where
  | digit
  | letter
  | upper
  | lower
  deriving DecidableEq, Repr

/-- A regular expression over characters. `char` holds one character in every
expression that a grammar defines, but is rendered whatever it holds. -/
inductive Regex where
  /-- The given text, meant as one character. -/
  | char (text : String)
  | word (text : String)
  /-- Any one of the given characters. -/
  | oneOf (chars : String)
  | seq (left right : Regex)
  | alt (left right : Regex)
  /-- The characters of the left class that are not in the right one. -/
  | minus (left right : Regex)
  | star (body : Regex)
  | plus (body : Regex)
  | opt (body : Regex)
  | eps
  | named (cls : CharClass)
  /-- Any one character but a newline. -/
  | any
  deriving DecidableEq, Repr

def Regex.sequence : List Regex → Regex
  | [] => .eps
  | [r] => r
  | r :: rest => .seq r (sequence rest)

/-- Any of the parts; there must be one. -/
def Regex.alternation? : List Regex → Option Regex
  | [] => none
  | [r] => some r
  | r :: rest => (alternation? rest).map (.alt r)

end FlexSynth
