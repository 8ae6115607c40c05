import FlexSynth.Toml.Error

/-!
# TOML strings, numbers and dates

The parts of a document that hold no other values.

A basic string may hold escapes, and a literal string holds its characters as
they are; either exists over one line and over several. Over several lines a
newline right after the opening quotes does not count, a backslash before the end
of a line swallows all blanks and newlines that follow, and up to two quotes may
stand right before the closing ones.
-/

namespace FlexSynth.Toml

/-! ## Characters -/

def isBlank (c : Char) : Bool :=
  c = ' ' || c = '\t'

def skipBlanks (cs : List Char) : List Char :=
  cs.dropWhile isBlank

/-- The control characters other than the tab. -/
def isForbidden (c : Char) : Bool :=
  (c.toNat < 0x20 && c ≠ '\t') || c.toNat = 0x7f

/-- The control characters that a string over several lines may not hold. -/
def isForbiddenIn (multiline : Bool) (c : Char) : Bool :=
  isForbidden c && !(multiline && c = '\n')

/-- The characters of a key without quotes. -/
def isKeyChar (c : Char) : Bool :=
  c.isAlphanum || c = '-' || c = '_'

/-- The characters after a text, if they start with it. -/
def after? (text : String) (cs : List Char) : Option (List Char) :=
  if text.toList.isPrefixOf cs then some (cs.drop text.length) else none

/-! ## Strings -/

/-- Reads the characters up to a delimiter, and the delimiter. -/
def literalBody (multiline : Bool) (delimiter : String) (cs : List Char) :
    Except Stop (Reading (List Char)) :=
  match Text.firstOccurrence? delimiter.toList cs with
  | none => .error (.malformed (.missingDelimiter delimiter) 0)
  | some n =>
    match (cs.take n).dropWhile (!isForbiddenIn multiline ·) with
    | [] => .ok (cs.take n, cs.drop (n + delimiter.length))
    | c :: rest => .error (.malformed (.invalidChar c) ((c :: rest).length + (cs.drop n).length))

/-- The character that an escape letter stands for. -/
def unescape? : Char → Option Char
  | 'b' => some '\x08'
  | 't' => some '\t'
  | 'n' => some '\n'
  | 'f' => some '\x0c'
  | 'r' => some '\r'
  | '"' => some '"'
  | '\\' => some '\\'
  | _ => none

def hexValue? (c : Char) : Option Nat :=
  if '0' ≤ c ∧ c ≤ '9' then some (c.toNat - '0'.toNat)
  else if 'a' ≤ c ∧ c ≤ 'f' then some (c.toNat - 'a'.toNat + 10)
  else if 'A' ≤ c ∧ c ≤ 'F' then some (c.toNat - 'A'.toNat + 10)
  else none

/-- The character of a hexadecimal escape; `rest` are the characters after its
digits. -/
def hexChar (digits rest : List Char) : Except Stop Char :=
  match digits.foldlM (fun n c => (hexValue? c).map (16 * n + ·)) 0 with
  | none => stopAt .badHexEscape (digits ++ rest)
  | some n => if n.isValidChar then .ok (Char.ofNat n) else stopAt .notScalar rest

/-- What a backslash before the end of a line still swallows: the blanks before
the newline, or all blanks and newlines. -/
inductive Swallow where
  | nothing
  | toLineEnd
  | blankLines
  deriving DecidableEq, Repr

/-- Reads the body of a basic string and its closing quotes. -/
def basicBody (multiline : Bool) : Swallow → List Char → Except Stop (Reading (List Char))
  | _, [] => .error (.malformed .openString 0)
  | swallow, c :: rest =>
    if swallow = .toLineEnd then
      if isBlank c then basicBody multiline .toLineEnd rest
      else if c = '\n' then basicBody multiline .blankLines rest
      else stopAt .badEscape (c :: rest)
    else if swallow = .blankLines ∧ (isBlank c ∨ c = '\n') then
      basicBody multiline .blankLines rest
    else if c = '"' then
      if multiline then
        match rest with
        | '"' :: '"' :: rest => .ok ([], rest)
        | rest => (basicBody multiline .nothing rest).map fun (cs, rest) => ('"' :: cs, rest)
      else .ok ([], rest)
    else if c = '\\' then
      match rest with
      | [] => .error (.malformed .badEscape 0)
      | 'u' :: a :: b :: c :: d :: rest => do
        let char ← hexChar [a, b, c, d] rest
        let (cs, rest) ← basicBody multiline .nothing rest
        return (char :: cs, rest)
      | 'u' :: rest => stopAt .badHexEscape rest
      | 'U' :: a :: b :: c :: d :: e :: f :: g :: h :: rest => do
        let char ← hexChar [a, b, c, d, e, f, g, h] rest
        let (cs, rest) ← basicBody multiline .nothing rest
        return (char :: cs, rest)
      | 'U' :: rest => stopAt .badHexEscape rest
      | e :: rest =>
        if multiline ∧ e = '\n' then basicBody multiline .blankLines rest
        else if multiline ∧ isBlank e then basicBody multiline .toLineEnd rest
        else match unescape? e with
          | some char => do
            let (cs, rest) ← basicBody multiline .nothing rest
            return (char :: cs, rest)
          | none => stopAt .badEscape rest
    else if isForbiddenIn multiline c then stopAt (.illegalChar c) (c :: rest)
    else (basicBody multiline .nothing rest).map fun (cs, rest) => (c :: cs, rest)

/-- Up to two quotes before the closing ones belong to the string. -/
def extraQuotes (quote : Char) : List Char → Reading (List Char)
  | a :: b :: rest =>
    if a = quote then if b = quote then ([a, b], rest) else ([a], b :: rest)
    else ([], a :: b :: rest)
  | [a] => if a = quote then ([a], []) else ([], [a])
  | [] => ([], [])

/-- The characters after a newline, if there is one. -/
def skipNewline : List Char → List Char
  | '\n' :: rest => rest
  | cs => cs

/-- Reads a string over several lines after its opening quotes. -/
def multilineString (quote : Char) (cs : List Char) : Except Stop (Reading String) := do
  let cs := skipNewline cs
  let (body, rest) ←
    if quote = '"' then basicBody true .nothing cs else literalBody true "'''" cs
  let (extra, rest) := extraQuotes quote rest
  return (String.ofList (body ++ extra), rest)

/-- Reads a basic string of one line after its opening quote. -/
def basicString (cs : List Char) : Except Stop (Reading String) := do
  let (body, rest) ← basicBody false .nothing cs
  return (String.ofList body, rest)

/-- Reads a literal string of one line after its opening quote. -/
def literalString (cs : List Char) : Except Stop (Reading String) := do
  let (body, rest) ← literalBody false "'" cs
  return (String.ofList body, rest)

/-! ## Numbers -/

/-- Reads more digits; a single underscore may stand before each. -/
def moreDigits (isDigit : Char → Bool) : List Char → List Char
  | '_' :: d :: rest => if isDigit d then moreDigits isDigit rest else '_' :: d :: rest
  | d :: rest => if isDigit d then moreDigits isDigit rest else d :: rest
  | [] => []

/-- The characters after a row of digits, if there is one. -/
def afterDigits? (isDigit : Char → Bool) : List Char → Option (List Char)
  | d :: rest => if isDigit d then some (moreDigits isDigit rest) else none
  | [] => none

/-- The characters after a number in base sixteen, two or eight. -/
def afterBased? : List Char → Option (List Char)
  | '0' :: 'x' :: rest => afterDigits? (fun c => (hexValue? c).isSome) rest
  | '0' :: 'b' :: rest => afterDigits? (fun c => c = '0' || c = '1') rest
  | '0' :: 'o' :: rest => afterDigits? (fun c => '0' ≤ c && c ≤ '7') rest
  | _ => none

/-- The characters after a sign, if there is one. -/
def skipSign : List Char → List Char
  | '+' :: rest => rest
  | '-' :: rest => rest
  | cs => cs

/-- The characters after a whole number without a sign; only zero itself starts
with a zero. -/
def afterWhole? : List Char → Option (List Char)
  | '0' :: rest => some rest
  | cs => afterDigits? Char.isDigit cs

/-- The characters after a point and digits, if they follow. -/
def skipFraction : List Char → List Char
  | '.' :: rest => (afterDigits? Char.isDigit rest).getD ('.' :: rest)
  | cs => cs

/-- The characters after an exponent, if it follows. -/
def skipExponent : List Char → List Char
  | [] => []
  | c :: rest =>
    if c = 'e' ∨ c = 'E' then (afterDigits? Char.isDigit (skipSign rest)).getD (c :: rest)
    else c :: rest

/-- The characters after a number in base ten. -/
def afterDecimal? (cs : List Char) : Option (List Char) :=
  (afterWhole? (skipSign cs)).map (skipExponent <| skipFraction ·)

def afterSpecial? (cs : List Char) : Option (List Char) :=
  ["inf", "nan", "-inf", "+inf", "-nan", "+nan"].findSome? (after? · cs)

def afterNumber? (cs : List Char) : Option (List Char) :=
  afterBased? cs <|> afterDecimal? cs <|> afterSpecial? cs

/-! ## Dates and times -/

/-- Reads a number of two digits between two bounds. -/
def twoDigits? (low high : Nat) : List Char → Option (Reading Nat)
  | a :: b :: rest =>
    let n := (a.toNat - '0'.toNat) * 10 + (b.toNat - '0'.toNat)
    if a.isDigit ∧ b.isDigit ∧ low ≤ n ∧ n ≤ high then some (n, rest) else none
  | _ => none

def afterChar? (c : Char) : List Char → Option (List Char)
  | d :: rest => if d = c then some rest else none
  | [] => none

def afterTime? (cs : List Char) : Option (List Char) := do
  let (_, cs) ← twoDigits? 0 23 cs
  let cs ← afterChar? ':' cs
  let (_, cs) ← twoDigits? 0 59 cs
  let cs ← afterChar? ':' cs
  let (_, cs) ← twoDigits? 0 59 cs
  match cs with
  | '.' :: d :: rest =>
    if d.isDigit then return rest.dropWhile Char.isDigit else return '.' :: d :: rest
  | cs => return cs

/-- The characters after an offset from universal time, if it follows. -/
def skipOffset : List Char → List Char
  | [] => []
  | c :: rest =>
    if c = 'Z' ∨ c = 'z' then rest
    else if c = '+' ∨ c = '-' then
      let after : Option (List Char) := do
        let (_, cs) ← twoDigits? 0 23 rest
        let cs ← afterChar? ':' cs
        let (_, cs) ← twoDigits? 0 59 cs
        return cs
      after.getD (c :: rest)
    else c :: rest

/-- The characters after a time of day in a date, if it follows. -/
def skipTime : List Char → List Char
  | [] => []
  | c :: rest =>
    if c = 'T' ∨ c = 't' ∨ c = ' ' then ((afterTime? rest).map skipOffset).getD (c :: rest)
    else c :: rest

def daysIn (year month : Nat) : Nat :=
  if month = 2 then
    if year % 4 = 0 ∧ (year % 100 ≠ 0 ∨ year % 400 = 0) then 29 else 28
  else if month = 4 ∨ month = 6 ∨ month = 9 ∨ month = 11 then 30
  else 31

/-- Reads a date, with a time if it follows. The result says whether the calendar
has the date. -/
def date? (cs : List Char) : Option (Reading Bool) := do
  let (century, cs) ← twoDigits? 0 99 cs
  let (years, cs) ← twoDigits? 0 99 cs
  let cs ← afterChar? '-' cs
  let (month, cs) ← twoDigits? 1 12 cs
  let cs ← afterChar? '-' cs
  let (day, cs) ← twoDigits? 1 31 cs
  let year := century * 100 + years
  return (1 ≤ year && day ≤ daysIn year month, skipTime cs)

/-! ## Scalars -/

/-- The characters before those that are left. -/
def lexeme (cs rest : List Char) : String :=
  String.ofList (cs.take (cs.length - rest.length))

/-- The failure of a number in base ten that is an integer with too many digits. -/
def longInteger? (cs : List Char) : Option Text.LongInteger :=
  match afterBased? cs, afterWhole? (skipSign cs) with
  | none, some rest =>
    if skipExponent (skipFraction rest) = rest then
      Text.longInteger? ((cs.take (cs.length - rest.length)).filter Char.isDigit).length
    else none
  | _, _ => none

/-- Reads a value that is no string and holds no other values. -/
def plainScalar (cs : List Char) : Except Stop (Reading Value) :=
  match after? "true" cs, after? "false" cs, date? cs, afterTime? cs, afterNumber? cs with
  | some rest, _, _, _, _ => .ok (.bool true, rest)
  | _, some rest, _, _, _ => .ok (.bool false, rest)
  | _, _, some (true, rest), _, _ => .ok (.moment (lexeme cs rest), rest)
  | _, _, some (false, _), _, _ => stopAt .invalidDate cs
  | _, _, _, some rest, _ => .ok (.moment (lexeme cs rest), rest)
  | _, _, _, _, some rest =>
    match longInteger? cs with
    | some e => .error (.longInteger e)
    | none => .ok (.number (lexeme cs rest), rest)
  | _, _, _, _, _ => stopAt .invalidValue cs

end FlexSynth.Toml
