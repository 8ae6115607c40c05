import FlexSynth.Text.Display

/-!
# Quoted literals

C and flex write a literal the same way: a backslash before the closing quote
and before a backslash, a letter for the control characters that have one, and
three octal digits for the rest. Three digits are the most that a reader takes,
so the character after the escape is never absorbed into it.

`quoted` is the form over characters; `cString` and `cChar` are the string and
the character literal.
-/

namespace FlexSynth.Text

/-! ## Escapes -/

/-- The letter after the backslash, for a character that has a one-letter escape. -/
def escapeLetter? : Char → Option Char
  | '\\' => some '\\'
  | '\n' => some 'n'
  | '\t' => some 't'
  | '\r' => some 'r'
  | '\x0c' => some 'f'
  | '\x0b' => some 'v'
  | '\x08' => some 'b'
  | '\x07' => some 'a'
  | _ => none

/-- The ASCII control characters, U+007F included. -/
def isControl (c : Char) : Bool :=
  c.toNat < 0x20 || c.toNat == 0x7f

/-- The last octal digit of `n`. -/
def octalDigit (n : Nat) : Char :=
  Char.ofNat (0x30 + n % 8)

def octalEscape (c : Char) : List Char :=
  ['\\', octalDigit (c.toNat / 64), octalDigit (c.toNat / 8), octalDigit c.toNat]

/-- One character of a literal that `quote` closes. -/
def escape (quote c : Char) : List Char :=
  if c = quote then ['\\', c]
  else match escapeLetter? c with
    | some letter => ['\\', letter]
    | none => if isControl c then octalEscape c else [c]

/-- A text between quotes. -/
def quoted (quote : Char) (text : List Char) : List Char :=
  quote :: (text.flatMap (escape quote) ++ [quote])

/-! ## Literals -/

/-- A C string literal, which flex also takes as a literal pattern. -/
def cString (text : String) : String :=
  String.ofList (quoted '"' text.toList)

/-- A text that a character literal cannot hold, for it is not one character. -/
structure NotOneChar where
  text : String
  deriving DecidableEq, Repr

def NotOneChar.message (e : NotOneChar) : String :=
  s!"expected a single character, got {display e.text}"

def cChar (text : String) : Except NotOneChar String :=
  match text.toList with
  | [c] => .ok (String.ofList (quoted '\'' [c]))
  | _ => .error ⟨text⟩

/-! ## Comments -/

/-- Whether a text would open or close a C comment somewhere. -/
def hasCommentMarker : List Char → Bool
  | '/' :: '*' :: _ => true
  | '*' :: '/' :: _ => true
  | _ :: rest => hasCommentMarker rest
  | [] => false

end FlexSynth.Text
