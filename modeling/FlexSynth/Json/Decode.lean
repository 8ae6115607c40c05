import FlexSynth.Json.Basic
import FlexSynth.Text.LongInteger
import FlexSynth.Text.Position

/-!
# Reading JSON

`Json.decode` reads a whole text. Beyond the standard it takes `NaN`, `Infinity`
and `-Infinity` as numbers, and of two fields of one name it keeps the later
value. A text that is not JSON is refused with the fault and the number of
characters before the place of the fault:

* a missing value, name, colon or comma: where it should start, after blanks;
* an unclosed string: its opening quote;
* a bad escape: its backslash, or the `u` after it for a hexadecimal escape.

An integer with too many digits ends the reading too, with a failure of its own, even
where the text is JSON.

An escape may stand for half of a surrogate pair. Where the other half is missing, no
character is meant, and `standIn` keeps the surrogate apart from every other one.

Reading goes along the characters that are left, so a place is known by how many
of them remain. The depth of the recursion is bounded by a count that a text of
that length cannot use up.
-/

namespace FlexSynth.Json

/-! ## Faults -/

/-- What keeps a text from being JSON. -/
inductive SyntaxFault where
  | byteOrderMark
  | missingValue
  | missingName
  | missingColon
  | missingComma
  | extraData
  | openString
  | controlCharacter
  | badEscape
  | badHexEscape
  deriving DecidableEq, Repr

def SyntaxFault.message : SyntaxFault → String
  | .byteOrderMark => "Unexpected UTF-8 BOM (decode using utf-8-sig)"
  | .missingValue => "Expecting value"
  | .missingName => "Expecting property name enclosed in double quotes"
  | .missingColon => "Expecting ':' delimiter"
  | .missingComma => "Expecting ',' delimiter"
  | .extraData => "Extra data"
  | .openString => "Unterminated string starting at"
  | .controlCharacter => "Invalid control character at"
  | .badEscape => "Invalid \\escape"
  | .badHexEscape => "Invalid \\uXXXX escape"

/-- What ends the reading of a text. -/
inductive Fault where
  | malformed (fault : SyntaxFault)
  | longInteger (e : Text.LongInteger)
  deriving DecidableEq, Repr

/-- A fault and the number of characters before its place. -/
structure DecodeError where
  fault : Fault
  offset : Nat
  deriving DecidableEq, Repr

/-- A fault and the number of characters from its place to the end. -/
structure Stop where
  fault : Fault
  remaining : Nat
  deriving DecidableEq, Repr

/-- What was read and the characters that are left. -/
abbrev Reading (α : Type) := α × List Char

/-- Stops at the first of the characters that are left. -/
def stopAt {α : Type} (fault : SyntaxFault) (rest : List Char) : Except Stop (Reading α) :=
  .error ⟨.malformed fault, rest.length⟩

/-! ## Blanks and words -/

/-- The four blank characters of JSON. -/
def isBlank (c : Char) : Bool :=
  c = ' ' || c = '\t' || c = '\n' || c = '\r'

def skipBlanks (cs : List Char) : List Char :=
  cs.dropWhile isBlank

/-- The characters after a word, if they start with it. -/
def afterWord? (word cs : List Char) : Option (List Char) :=
  if word.isPrefixOf cs then some (cs.drop word.length) else none

/-- The values that are written as one word. -/
def words : List (String × Json) :=
  [("null", .null), ("true", .bool true), ("false", .bool false), ("NaN", .number "NaN"),
   ("Infinity", .number "Infinity"), ("-Infinity", .number "-Infinity")]

def word? (cs : List Char) : Option (Reading Json) :=
  words.findSome? fun (word, value) => (afterWord? word.toList cs).map (value, ·)

/-! ## Numbers -/

/-- The leading decimal digits and what follows them. -/
def digits (cs : List Char) : Reading (List Char) :=
  (cs.takeWhile Char.isDigit, cs.dropWhile Char.isDigit)

/-- Reads an integer without a sign; only zero itself starts with a zero. -/
def natural? : List Char → Option (Reading (List Char))
  | '0' :: rest => some (['0'], rest)
  | c :: rest => if c.isDigit then some (digits (c :: rest)) else none
  | [] => none

def integer? : List Char → Option (Reading (List Char))
  | '-' :: rest => (natural? rest).map fun (ds, rest) => ('-' :: ds, rest)
  | cs => natural? cs

/-- Reads a point and the digits after it, or nothing when no digit follows. -/
def fraction : List Char → Reading (List Char)
  | '.' :: rest =>
    match digits rest with
    | ([], _) => ([], '.' :: rest)
    | (ds, rest) => ('.' :: ds, rest)
  | cs => ([], cs)

def sign : List Char → Reading (List Char)
  | '+' :: rest => (['+'], rest)
  | '-' :: rest => (['-'], rest)
  | cs => ([], cs)

/-- Reads an exponent, or nothing when it has no digit. -/
def exponent : List Char → Reading (List Char)
  | [] => ([], [])
  | c :: rest =>
    if c = 'e' ∨ c = 'E' then
      let (sgn, after) := sign rest
      match digits after with
      | ([], _) => ([], c :: rest)
      | (ds, rest) => (c :: sgn ++ ds, rest)
    else ([], c :: rest)

/-- A number as it is written: an integer, and the fraction and the exponent behind it. -/
structure Numeral where
  whole : List Char
  fraction : List Char
  exponent : List Char

namespace Numeral

def text (n : Numeral) : String :=
  String.ofList (n.whole ++ n.fraction ++ n.exponent)

/-- The failure of a number that is an integer with too many digits. -/
def longInteger? (n : Numeral) : Option Text.LongInteger :=
  if n.fraction = [] ∧ n.exponent = [] then Text.longInteger? (n.whole.filter Char.isDigit).length
  else none

end Numeral

/-- Reads the longest number that the characters start with. -/
def numeral? (cs : List Char) : Option (Reading Numeral) := do
  let (whole, cs) ← integer? cs
  let (frac, cs) := fraction cs
  let (exp, cs) := exponent cs
  return (⟨whole, frac, exp⟩, cs)

/-! ## Strings -/

/-- The character that an escape letter stands for. -/
def unescape? : Char → Option Char
  | '"' => some '"'
  | '\\' => some '\\'
  | '/' => some '/'
  | 'b' => some '\x08'
  | 'f' => some '\x0c'
  | 'n' => some '\n'
  | 'r' => some '\r'
  | 't' => some '\t'
  | _ => none

def hexValue? (c : Char) : Option Nat :=
  if '0' ≤ c ∧ c ≤ '9' then some (c.toNat - '0'.toNat)
  else if 'a' ≤ c ∧ c ≤ 'f' then some (c.toNat - 'a'.toNat + 10)
  else if 'A' ≤ c ∧ c ≤ 'F' then some (c.toNat - 'A'.toNat + 10)
  else none

def hexNumber? (cs : List Char) : Option Nat :=
  cs.foldlM (fun n c => (hexValue? c).map (16 * n + ·)) 0

/-- Reads the body of a string and its closing quote as code points, in which an
escaped surrogate still stands alone. `opened` is how many characters remained
at the opening quote. -/
def stringBody (opened : Nat) : List Char → Except Stop (Reading (List Nat))
  | [] => .error ⟨.malformed .openString, opened⟩
  | '"' :: rest => .ok ([], rest)
  | ['\\'] => .error ⟨.malformed .openString, opened⟩
  | '\\' :: 'u' :: a :: b :: c :: d :: e :: rest =>
    match hexNumber? [a, b, c, d] with
    | some n => do
      let (ns, rest) ← stringBody opened (e :: rest)
      return (n :: ns, rest)
    | none => stopAt .badHexEscape ('u' :: a :: b :: c :: d :: e :: rest)
  | '\\' :: 'u' :: rest => stopAt .badHexEscape ('u' :: rest)
  | '\\' :: letter :: rest =>
    match unescape? letter with
    | some c => do
      let (ns, rest) ← stringBody opened rest
      return (c.toNat :: ns, rest)
    | none => stopAt .badEscape ('\\' :: letter :: rest)
  | c :: rest =>
    if c.toNat < 0x20 then stopAt .controlCharacter (c :: rest)
    else do
      let (ns, rest) ← stringBody opened rest
      return (c.toNat :: ns, rest)

/-- The character of a code point. A surrogate is none, and one of the last characters for
private use stands for it, another one for each. -/
def standIn (n : Nat) : Char :=
  if n.isValidChar then Char.ofNat n else Char.ofNat (0x102000 + n)

/-- The characters of a row of code points. A high and a low surrogate make one
character. -/
def joinSurrogates : List Nat → List Char
  | high :: low :: rest =>
    if 0xd800 ≤ high ∧ high < 0xdc00 ∧ 0xdc00 ≤ low ∧ low < 0xe000 then
      Char.ofNat (0x10000 + (high - 0xd800) * 0x400 + (low - 0xdc00)) :: joinSurrogates rest
    else standIn high :: joinSurrogates (low :: rest)
  | [n] => [standIn n]
  | [] => []

def stringAfterQuote (cs : List Char) : Except Stop (Reading String) := do
  let (ns, rest) ← stringBody (cs.length + 1) cs
  return (String.ofList (joinSurrogates ns), rest)

/-! ## Lists -/

section

variable {α : Type}

/-- Reads on after an opening bracket: to the closing one if it comes next, or else what
`inner` reads, with the closing one. -/
def bracketed (close : Char) (inner : List Char → Except Stop (Reading (List α)))
    (cs : List Char) : Except Stop (Reading (List α)) :=
  match skipBlanks cs with
  | [] => inner []
  | c :: rest => if c = close then .ok ([], rest) else inner (c :: rest)

/-- Reads on after an item: to the closing bracket, or a comma and what `more` reads, with
the closing bracket. -/
def listed (close : Char) (item : α) (more : List Char → Except Stop (Reading (List α)))
    (cs : List Char) : Except Stop (Reading (List α)) :=
  match skipBlanks cs with
  | [] => stopAt .missingComma []
  | c :: rest =>
    if c = close then .ok ([item], rest)
    else if c = ',' then do
      let (others, rest) ← more (skipBlanks rest)
      return (item :: others, rest)
    else stopAt .missingComma (c :: rest)

/-- Reads on after the name of a field: a colon and what `inner` reads. -/
def afterColon (inner : List Char → Except Stop (Reading α)) (cs : List Char) :
    Except Stop (Reading α) :=
  match skipBlanks cs with
  | [] => stopAt .missingColon []
  | c :: rest => if c = ':' then inner (skipBlanks rest) else stopAt .missingColon (c :: rest)

end

/-! ## Values -/

/-- Reads a value that is one word or one number. An integer with too many digits stops it at
its start. -/
def scalar (cs : List Char) : Except Stop (Reading Json) :=
  match word? cs with
  | some found => .ok found
  | none => match numeral? cs with
    | none => stopAt .missingValue cs
    | some (n, rest) => match n.longInteger? with
      | some e => .error ⟨.longInteger e, cs.length⟩
      | none => .ok (.number n.text, rest)

mutual

/-- Reads a value; `depth` bounds the recursion. -/
def value : (depth : Nat) → List Char → Except Stop (Reading Json)
  | 0, cs => stopAt .missingValue cs
  | depth + 1, cs =>
    match cs with
    | '"' :: rest => do
      let (text, rest) ← stringAfterQuote rest
      return (.string text, rest)
    | '[' :: rest => do
      let (items, rest) ← bracketed ']' (items depth) rest
      return (.array items, rest)
    | '{' :: rest => do
      let (pairs, rest) ← bracketed '}' (fields depth) rest
      return (.object (fieldsOf pairs), rest)
    | cs => scalar cs

/-- Reads the items of an array that has one, and its closing bracket. -/
def items : (depth : Nat) → List Char → Except Stop (Reading (List Json))
  | 0, cs => stopAt .missingValue cs
  | depth + 1, cs => do
    let (item, rest) ← value depth cs
    listed ']' item (items depth) rest

/-- Reads the fields of an object that has one, and its closing brace. -/
def fields : (depth : Nat) → List Char → Except Stop (Reading (List (String × Json)))
  | 0, cs => stopAt .missingName cs
  | depth + 1, cs =>
    match cs with
    | '"' :: rest => do
      let (name, rest) ← stringAfterQuote rest
      let (item, rest) ← afterColon (value depth) rest
      listed '}' (name, item) (fields depth) rest
    | cs => stopAt .missingName cs

end

/-- Reads a value with blanks around it and nothing else. -/
def document (cs : List Char) : Except Stop Json := do
  if cs.head? = some '\ufeff' then .error ⟨.malformed .byteOrderMark, cs.length⟩
  let (result, rest) ← value (2 * cs.length + 2) (skipBlanks cs)
  match skipBlanks rest with
  | [] => return result
  | rest => .error ⟨.malformed .extraData, rest.length⟩

/-- The JSON value that a text stands for. -/
def decode (source : String) : Except DecodeError Json :=
  let cs := source.toList
  match document cs with
  | .ok v => .ok v
  | .error stop => .error ⟨stop.fault, cs.length - stop.remaining⟩

end FlexSynth.Json
