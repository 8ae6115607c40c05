import FlexSynth.Text.Printable

/-!
# Texts shown in messages

Messages show a text from the outside between quotes, with everything that a
terminal could swallow written as an escape. Single quotes are used unless the
text holds a single quote and no double quote.
-/

namespace FlexSynth.Text

/-- The `n`-th hexadecimal digit, in lower case; `n` counts modulo sixteen. -/
def hexDigit (n : Nat) : Char :=
  if n % 16 < 10 then Char.ofNat (0x30 + n % 16) else Char.ofNat (0x57 + n % 16)

/-- The last `width` hexadecimal digits of `n`. -/
def hex : (width n : Nat) → List Char
  | 0, _ => []
  | width + 1, n => hex width (n / 16) ++ [hexDigit n]

/-- The hexadecimal escape of a character, as short as its code point allows. -/
def hexEscape (c : Char) : List Char :=
  if c.toNat < 0x100 then '\\' :: 'x' :: hex 2 c.toNat
  else if c.toNat < 0x10000 then '\\' :: 'u' :: hex 4 c.toNat
  else '\\' :: 'U' :: hex 8 c.toNat

def displayChar (quote c : Char) : List Char :=
  if c = quote ∨ c = '\\' then ['\\', c]
  else if c = '\n' then ['\\', 'n']
  else if c = '\r' then ['\\', 'r']
  else if c = '\t' then ['\\', 't']
  else if isPrintable c then [c]
  else hexEscape c

/-- The quote that needs no escape inside the text, a single quote by preference. -/
def displayQuote (text : List Char) : Char :=
  if '\'' ∈ text ∧ '"' ∉ text then '"' else '\''

/-- A text as messages show it. -/
def display (text : String) : String :=
  let quote := displayQuote text.toList
  String.ofList (quote :: (text.toList.flatMap (displayChar quote) ++ [quote]))

end FlexSynth.Text
